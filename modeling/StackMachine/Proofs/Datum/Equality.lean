import Mathlib
import StackMachine.Datum

/-!
# Equality of data

Equality is an equivalence that the views of a datum respect: its tag, its truth, its text and, item by item,
the list it is (`Views.Respects`).

A list can be kept as a chain of cells, each of them linked to the next, and cells can be parts of many lists
(`Cells`). To compare two values is then to walk along their chains. The walk decides as equality does on the
data that are read off the cells (`Cells.beq_eq`), whatever cells they have in common, and it is respected in
the same way (`equality_respected`).
-/

namespace StackMachine

/-! ### Views -/

structure Views (α : Type) where
  tag : α → Tag
  truthy : α → Bool
  text : α → String
  items : α → Except TypeMismatch (List α)

namespace Views

variable {α β : Type} {v : Views α} {w : Views β} {eq : β → β → Bool}

/-- Equality is an equivalence, equal values look the same, and lists are equal if they have equally many items
and these are equal one by one. -/
structure Respects (v : Views α) (eq : α → α → Bool) : Prop where
  refl : ∀ a, eq a a = true
  symm : ∀ a b, eq a b = true → eq b a = true
  trans : ∀ a b c, eq a b = true → eq b c = true → eq a c = true
  tag : ∀ a b, eq a b = true → v.tag a = v.tag b
  truthy : ∀ a b, eq a b = true → v.truthy a = v.truthy b
  text : ∀ a b, eq a b = true → v.text a = v.text b
  items : ∀ a b as bs, v.items a = .ok as → v.items b = .ok bs →
    (eq a b = true ↔ List.Forall₂ (fun x y => eq x y = true) as bs)

/-- A map that does not change how values look. -/
structure Keeps (v : Views α) (w : Views β) (f : α → β) : Prop where
  tag : ∀ a, v.tag a = w.tag (f a)
  truthy : ∀ a, v.truthy a = w.truthy (f a)
  text : ∀ a, v.text a = w.text (f a)
  items : ∀ a as, v.items a = .ok as → w.items (f a) = .ok (as.map f)

theorem Respects.comap {f : α → β} (h : w.Respects eq) (hf : v.Keeps w f) :
    v.Respects fun a b => eq (f a) (f b) where
  refl a := h.refl (f a)
  symm a b := h.symm (f a) (f b)
  trans a b c := h.trans (f a) (f b) (f c)
  tag a b hab := by rw [hf.tag, hf.tag, h.tag _ _ hab]
  truthy a b hab := by rw [hf.truthy, hf.truthy, h.truthy _ _ hab]
  text a b hab := by rw [hf.text, hf.text, h.text _ _ hab]
  items a b as bs ha hb := by
    rw [h.items _ _ _ _ (hf.items a as ha) (hf.items b bs hb), List.forall₂_map_left_iff,
      List.forall₂_map_right_iff]

end Views

namespace Datum

def views : Views Datum :=
  ⟨tag, truthy, render, asList⟩

theorem asList_eq_ok {d : Datum} {items : List Datum} (h : d.asList = .ok items) : d = .list items := by
  cases d with
  | list xs => exact congrArg list (Except.ok.inj h)
  | _ => cases h

theorem beqItems_iff_forall₂ {xs ys : List Datum} :
    beqItems xs ys = true ↔ List.Forall₂ (fun x y => (x == y) = true) xs ys := by
  induction xs generalizing ys with
  | nil => cases ys <;> simp [beqItems]
  | cons x xs ih =>
    cases ys with
    | nil => simp [beqItems]
    | cons y ys =>
      rw [beqItems, Bool.and_eq_true, ih, List.forall₂_cons]
      rfl

theorem views_respects : views.Respects (· == ·) where
  refl a := beq_self_eq_true a
  symm a b hab := by rw [eq_of_beq hab, beq_self_eq_true]
  trans a b c hab hbc := by rw [eq_of_beq hab, hbc]
  tag a b hab := by rw [eq_of_beq hab]
  truthy a b hab := by rw [eq_of_beq hab]
  text a b hab := by rw [eq_of_beq hab]
  items a b as bs ha hb := by
    rw [asList_eq_ok ha, asList_eq_ok hb, ← beqItems_iff_forall₂]
    rfl

theorem beq_list_eq_false {d : Datum} (h : d.tag ≠ .list) (xs : List Datum) :
    (d == list xs) = false ∧ (list xs == d) = false := by
  have hne : d ≠ list xs := fun hd => h (congrArg tag hd)
  exact ⟨beq_eq_false_iff_ne.2 hne, beq_eq_false_iff_ne.2 hne.symm⟩

theorem real_beq_iff {x y : Float} : (real x == real y) = true ↔ x.toBits = y.toBits := by
  rw [beq_iff_eq, real.injEq, toBits_inj]

theorem real_beq_of_isNaN {x y : Float} (hx : x.isNaN = true) (hy : y.isNaN = true) :
    (real x == real y) = true := by
  rw [Float.isNaN_eq_decide_eq_nan, decide_eq_true_eq] at hx hy
  rw [hx, hy, beq_self_eq_true]

end Datum

/-! ### Cells -/

/-- A list that is kept in cells: the place of the first one, or none if it is empty. -/
abbrev Chain := Option Nat

def Chain.height (c : Chain) : Nat := c.elim 0 (· + 1)

/-- A datum whose lists are chains. -/
inductive Value where
  | atom (d : Datum) (h : d.tag ≠ .list)
  | list (first : Chain)

def Value.height : Value → Nat
  | .atom _ _ => 0
  | .list first => first.height

structure Cell where
  item : Value
  next : Chain

/-- Cells by their places. A cell is made of what there was before it. -/
structure Cells where
  cell : Nat → Cell
  item_height_le : ∀ i, (cell i).item.height ≤ i
  next_height_le : ∀ i, (cell i).next.height ≤ i

namespace Cells

variable (m : Cells)

theorem item_height_lt (i : Nat) : (m.cell i).item.height < Chain.height (some i) :=
  Nat.lt_succ_of_le (m.item_height_le i)

theorem next_height_lt (i : Nat) : (m.cell i).next.height < Chain.height (some i) :=
  Nat.lt_succ_of_le (m.next_height_le i)

/-- What holds of the parts of a cell before it holds of the cell holds of all. -/
theorem induction {P : Value → Prop} {Q : Chain → Prop} (atom : ∀ d h, P (.atom d h))
    (list : ∀ c, Q c → P (.list c)) (nil : Q none)
    (cons : ∀ i, P (m.cell i).item → Q (m.cell i).next → Q (some i)) : (∀ v, P v) ∧ ∀ c, Q c := by
  have hchain : ∀ n (c : Chain), c.height ≤ n → Q c := by
    intro n
    induction n with
    | zero =>
      intro c hc
      cases c with
      | none => exact nil
      | some i => exact absurd hc (Nat.not_succ_le_zero i)
    | succ n ih =>
      intro c hc
      cases c with
      | none => exact nil
      | some i =>
        have hi : i ≤ n := Nat.le_of_succ_le_succ hc
        refine cons i ?_ (ih _ (Nat.le_trans (m.next_height_le i) hi))
        have hitem := Nat.le_trans (m.item_height_le i) hi
        revert hitem
        cases (m.cell i).item with
        | atom d h => exact fun _ => atom d h
        | list c => exact fun hc => list c (ih c hc)
  have hall : ∀ c, Q c := fun c => hchain _ c (Nat.le_refl _)
  refine ⟨fun v => ?_, hall⟩
  cases v with
  | atom d h => exact atom d h
  | list c => exact list c (hall c)

/-! ### Walks -/

mutual

def beq : Value → Value → Bool
  | .atom d _, .atom e _ => d == e
  | .list b, .list c => beqChain b c
  | .atom _ _, .list _ | .list _, .atom _ _ => false
termination_by v => (v.height, 1)

def beqChain : Chain → Chain → Bool
  | none, none => true
  | some i, some j => beq (m.cell i).item (m.cell j).item && beqChain (m.cell i).next (m.cell j).next
  | none, some _ | some _, none => false
termination_by c => (c.height, 0)
decreasing_by
  · exact .left _ _ (m.item_height_lt i)
  · exact .left _ _ (m.next_height_lt i)

end

variable {α : Type} (atom : Datum → α) (list : List α → α)

mutual

/-- Goes through a value and all that is in its lists. -/
def fold : Value → α
  | .atom d _ => atom d
  | .list c => list (foldChain c)
termination_by v => (v.height, 1)

def foldChain : Chain → List α
  | none => []
  | some i => fold (m.cell i).item :: foldChain (m.cell i).next
termination_by c => (c.height, 0)
decreasing_by
  · exact .left _ _ (m.item_height_lt i)
  · exact .left _ _ (m.next_height_lt i)

end

/-- The items of a list, from its first cell to its last. -/
def chain : Chain → List Value
  | none => []
  | some i => (m.cell i).item :: chain (m.cell i).next
termination_by c => c.height
decreasing_by exact m.next_height_lt i

/-- The datum that a value stands for. -/
def read : Value → Datum :=
  m.fold id .list

def readChain : Chain → List Datum :=
  m.foldChain id .list

def text : Value → String :=
  m.fold Datum.render fun texts => "[" ++ ", ".intercalate texts ++ "]"

def views : Views Value where
  tag
    | .atom d _ => d.tag
    | .list _ => .list
  truthy
    | .atom d _ => d.truthy
    | .list c => c.isSome
  text := m.text
  items
    | .atom d _ => .error (d.mismatch .list)
    | .list c => .ok (m.chain c)

/-! ### Reading -/

@[simp] theorem read_atom {d : Datum} (h : d.tag ≠ .list) : m.read (.atom d h) = d := by
  rw [read, fold, id]

@[simp] theorem read_list (c : Chain) : m.read (.list c) = .list (m.readChain c) := by
  rw [read, fold, readChain]

@[simp] theorem readChain_none : m.readChain none = [] := by
  rw [readChain, foldChain]

@[simp] theorem readChain_some (i : Nat) :
    m.readChain (some i) = m.read (m.cell i).item :: m.readChain (m.cell i).next := by
  rw [readChain, foldChain, read]

theorem readChain_eq_map (c : Chain) : m.readChain c = (m.chain c).map m.read := by
  refine (m.induction (P := fun _ => True) (Q := fun c => m.readChain c = (m.chain c).map m.read)
    (fun _ _ => trivial) (fun _ _ => trivial) ?_ ?_).2 c
  · rw [readChain_none, chain, List.map_nil]
  · intro i _ hnext
    rw [readChain_some, chain, hnext, List.map_cons]

theorem beq_eq (v w : Value) : m.beq v w = (m.read v == m.read w) := by
  refine (m.induction (P := fun v => ∀ w, m.beq v w = (m.read v == m.read w))
    (Q := fun b => ∀ c, m.beqChain b c = (Datum.list (m.readChain b) == .list (m.readChain c)))
    ?_ ?_ ?_ ?_).1 v w
  · intro d h w
    cases w with
    | atom e _ => rw [beq, read_atom, read_atom]
    | list c => rw [beq, read_atom, read_list, (Datum.beq_list_eq_false h _).1]
  · intro b hb w
    cases w with
    | atom e h => rw [beq, read_list, read_atom, (Datum.beq_list_eq_false h _).2]
    | list c => rw [beq, read_list, read_list, hb]
  · intro c
    cases c with
    | none => rw [beqChain, readChain_none, beq_self_eq_true]
    | some j =>
      rw [beqChain, readChain_none, readChain_some]
      rfl
  · intro i hitem hnext c
    cases c with
    | none =>
      rw [beqChain, readChain_none, readChain_some]
      rfl
    | some j =>
      rw [beqChain, readChain_some, readChain_some, hitem, hnext]
      rfl

theorem text_eq_render (v : Value) : m.text v = (m.read v).render := by
  refine (m.induction (P := fun v => m.text v = (m.read v).render)
    (Q := fun c => m.foldChain Datum.render (fun texts => "[" ++ ", ".intercalate texts ++ "]") c =
      Datum.renderAll (m.readChain c)) ?_ ?_ ?_ ?_).1 v
  · intro d h
    rw [read_atom, text, fold]
  · intro c hc
    rw [read_list, Datum.render, text, fold, hc]
  · rw [foldChain, readChain_none, Datum.renderAll]
  · intro i hitem hnext
    rw [foldChain, readChain_some, Datum.renderAll, hnext, ← hitem, text]

theorem views_keeps_read : m.views.Keeps Datum.views m.read where
  tag
    | .atom d h => by rw [read_atom]; rfl
    | .list c => by rw [read_list]; rfl
  truthy
    | .atom d h => by rw [read_atom]; rfl
    | .list none => by rw [read_list, readChain_none]; rfl
    | .list (some i) => by rw [read_list, readChain_some]; rfl
  text := m.text_eq_render
  items
    | .list c, _, rfl => by rw [read_list, readChain_eq_map]; rfl

end Cells

/-- Equality of data is an equivalence that tag, truth, text and items respect, and so is that of data whose
lists are kept in cells, whichever of these they share. -/
theorem equality_respected :
    Datum.views.Respects (· == ·) ∧
    (∀ x y : Float, (Datum.real x == .real y) = true ↔ x.toBits = y.toBits) ∧
    (∀ x y : Float, x.isNaN = true → y.isNaN = true → (Datum.real x == .real y) = true) ∧
    ∀ m : Cells, m.views.Respects m.beq ∧ ∀ v w, m.beq v w = (m.read v == m.read w) := by
  refine ⟨Datum.views_respects, fun _ _ => Datum.real_beq_iff, fun _ _ => Datum.real_beq_of_isNaN, fun m => ?_⟩
  have hbeq : m.beq = fun v w => m.read v == m.read w := funext fun v => funext (m.beq_eq v)
  refine ⟨?_, m.beq_eq⟩
  rw [hbeq]
  exact Datum.views_respects.comap m.views_keeps_read

/-- The list of `1` twice in a list, at `2` as one list and at `4` as two. -/
def Cells.twice : Cells where
  cell
    | 0 | 3 => ⟨.atom (.integer 1) (by decide), none⟩
    | 1 => ⟨.list (some 0), none⟩
    | 2 => ⟨.list (some 0), some 1⟩
    | 4 => ⟨.list (some 3), some 1⟩
    | _ => ⟨.atom .null (by decide), none⟩
  item_height_le i := by split <;> simp [Value.height, Chain.height]
  next_height_le i := by split <;> simp [Chain.height]

theorem equality_respected_twice :
    Cells.twice.beq (.list (some 2)) (.list (some 4)) = true ∧
    Cells.twice.text (.list (some 2)) = Cells.twice.text (.list (some 4)) ∧
    Cells.twice.beq (.list (some 1)) (.list (some 4)) = false := by
  obtain ⟨-, -, -, hcells⟩ := equality_respected
  obtain ⟨hrespects, hread⟩ := hcells Cells.twice
  have heq : Cells.twice.beq (.list (some 2)) (.list (some 4)) = true := by
    rw [hread]
    simp [Cells.twice]
  refine ⟨heq, hrespects.text _ _ heq, ?_⟩
  rw [hread]
  simp [Cells.twice]

end StackMachine
