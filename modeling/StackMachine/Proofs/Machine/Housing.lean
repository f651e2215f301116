import StackMachine.Proofs.Machine.Faults
import StackMachine.Proofs.Store.Nesting

/-!
# What a state names

A state names frames: in its scope, in the calls under way, and in the functions and scopes among its data.
Instructions make few data themselves, and of functions only those in the scope of the moment. So a property
of data that allows these (`Datum.Lasting`) holds of all data in a state, inside lists too, if it holds of
the literals of the program and of what was there at the start, and the frames that are named are there
(`Housed`).
-/

namespace StackMachine

/-! ### Data inside data -/

/-- The first datum is the second one, or is an item of a list inside it. -/
inductive Datum.Within (d : Datum) : Datum → Prop
  | self : Within d d
  | item {e : Datum} {items : List Datum} : Within d e → e ∈ items → Within d (.list items)

/-- All data inside a datum have the property. -/
def Datum.Throughout (P : Datum → Prop) (d : Datum) : Prop := ∀ e : Datum, e.Within d → P e

/-- A property of data that depends on the number of frames, and that is true of what instructions make. -/
structure Datum.Lasting (P : Nat → Datum → Prop) : Prop where
  mono : ∀ {n k d}, P n d → n ≤ k → P k d
  function : ∀ {n} {f : Closure}, P n (.function f) ↔ f.scope < n
  list : ∀ n items, P n (.list items)
  plain : ∀ {d : Datum}, d.IsPlain → ∀ n, P n d

namespace Datum.Throughout

variable {P Q : Datum → Prop} {d : Datum}

theorem mono (h : d.Throughout P) (hPQ : ∀ e, P e → Q e) : d.Throughout Q := fun e he => hPQ e (h e he)

theorem of_self (h : P d) (hd : ∀ items, d ≠ .list items) : d.Throughout P := by
  intro e he
  cases he with
  | self => exact h
  | item => exact absurd rfl (hd _)

theorem list {items : List Datum} (h : P (.list items)) (hitems : ∀ e ∈ items, e.Throughout P) :
    (Datum.list items).Throughout P := by
  intro e he
  cases he with
  | self => exact h
  | item he hmem => exact hitems _ hmem e he

theorem plain {P : Nat → Datum → Prop} (hP : Lasting P) (n : Nat) (h : d.IsPlain) :
    d.Throughout (P n) := by
  cases d with
  | integer | real => exact of_self (hP.plain h n) (by simp)
  | list items =>
    cases items with
    | nil => exact list (hP.list n []) (by simp)
    | cons => exact h.elim
  | null | instruction | function | scope => exact h.elim

end Datum.Throughout

/-! ### Data and frames of a state -/

/-- The datum stands on the stack or in a slot of a frame, perhaps inside lists. -/
inductive State.Holds (s : State) (d : Datum) : Prop
  | stack {e : Datum} : e ∈ s.stack.items → d.Within e → Holds s d
  | slot {id : FrameId} {i : Nat} {e : Datum} : s.store.slot id i = .ok e → d.Within e → Holds s d

/-- The frame is the scope of the moment, or one that a call has saved or that a function was made in. -/
inductive State.Names (s : State) : FrameId → Prop
  | current : Names s s.scope
  | saved {f : CallFrame} : f ∈ s.calls.items → Names s f.scope
  | captured {f : Closure} : s.Holds (.function f) → Names s f.scope

namespace Machine

variable {m : Machine} {s t : State} {store : Store}

/-- The scope and those that calls have saved are there. -/
structure Anchored (s : State) : Prop where
  scope : s.scope < s.store.size
  saved : ∀ f ∈ s.calls.items, f.scope < s.store.size

namespace Anchored

theorem of_same (h : Anchored s) (hcalls : t.calls = s.calls) (hscope : t.scope = s.scope)
    (hsize : t.store.size = s.store.size) : Anchored t where
  scope := by
    rw [hscope, hsize]
    exact h.scope
  saved := by
    rw [hcalls, hsize]
    exact h.saved

theorem entered (h : Anchored s) (c : Invocation) : Anchored (entered c s) := by
  have hsize : (Machine.entered c s).store.size = s.store.size + 1 := Store.size_add _ _
  constructor
  · rw [hsize]
    exact Nat.lt_succ_self _
  · intro f hf
    rw [hsize]
    exact Nat.lt_succ_of_lt (h.saved f hf)

theorem kept (h : Anchored s) : Anchored (Machine.saved s) := by
  refine ⟨h.scope, ?_⟩
  intro f hf
  rcases List.mem_cons.1 hf with rfl | hf
  · exact h.scope
  · exact h.saved f hf

theorem next (h : Anchored s) (hfit : Fits m s) : Anchored (m.next s) := by
  rcases spent_or_done hfit with hspent | hdone
  · exact h.of_same hspent.calls hspent.scope (by rw [hspent.store])
  generalize m.next s = t at hdone
  cases hdone with
  | still _ => exact h
  | instruction _ hst => exact h.of_same hst.calls hst.scope hst.store.size
  | @tailCalled c u _ hp _ =>
    have hu : Anchored u := by
      rw [eq_of_prepare hp]
      exact h.of_same rfl rfl rfl
    exact hu.entered c
  | @called kind c u _ hp _ _ =>
    have hu : Anchored u := by
      rw [eq_of_prepare hp]
      exact h.of_same rfl rfl rfl
    exact hu.kept.entered c
  | @returned st v calls f _ _ hcalls =>
    have hitems : s.calls.items = f :: calls.items := by rw [hcalls, Stack.items_push]
    refine ⟨h.saved f (hitems ▸ List.mem_cons_self), ?_⟩
    intro g hg
    exact h.saved g (hitems ▸ List.mem_cons_of_mem f hg)

end Anchored

theorem ReachableFrom.anchored (hstore : globalScope < store.size)
    (hs : m.ReachableFrom (.start store) s) : Anchored s := by
  have hstart : Anchored (.start store) := ⟨hstore, fun f hf => by cases hf⟩
  exact (fits_start m store).invariant (fun _ hfit ht => ht.next hfit) hstart hs

/-- The scopes are there, and all data have the property. -/
structure Housed (P : Nat → Datum → Prop) (s : State) : Prop extends Anchored s where
  stack : ∀ d ∈ s.stack.items, d.Throughout (P s.store.size)
  slots : ∀ {id i d}, s.store.slot id i = .ok d → d.Throughout (P s.store.size)

namespace Housed

variable {P : Nat → Datum → Prop}

theorem holds (h : Housed P s) {d : Datum} (hd : s.Holds d) : P s.store.size d := by
  cases hd with
  | stack he hde => exact h.stack _ he d hde
  | slot he hde => exact h.slots he d hde

theorem names (h : Housed P s) (hP : Datum.Lasting P) {id : FrameId} (hid : s.Names id) :
    id < s.store.size := by
  cases hid with
  | current => exact h.scope
  | saved hf => exact h.saved _ hf
  | captured hf => exact hP.function.1 (h.holds hf)

theorem spent {k : Nat} (h : Housed P s) (hst : Spent k s t) : Housed P t where
  toAnchored := h.toAnchored.of_same hst.calls hst.scope (by rw [hst.store])
  stack := by
    rw [hst.store]
    intro d hd
    exact h.stack d (hst.stack.subset hd)
  slots := hst.store ▸ h.slots

theorem origin (h : Housed P s) (hP : Datum.Lasting P) {d : Datum}
    (hp : ∀ d ∈ m.program.toList, d.Throughout (P s.store.size)) (hd : Origin m s d) :
    d.Throughout (P s.store.size) := by
  cases hd with
  | kept hd => exact h.stack d hd
  | literal ha => exact hp d (Array.mem_toList_iff.2 (Array.mem_of_getElem? ha))
  | read hslot => exact h.slots hslot
  | closure a => exact .of_self (hP.function.2 h.scope) (by simp)
  | plain hd => exact .plain hP _ hd

theorem written {op : Opcode} (h : Housed P s) (hst : Writes m op s store) {id : FrameId} {i : Nat}
    {d : Datum} (hd : store.slot id i = .ok d) : d.Throughout (P s.store.size) := by
  cases hst with
  | nothing => exact h.slots hd
  | @assigned j v _ _ hv =>
    rcases Store.slot_define hd with rfl | hd
    · exact h.stack _ hv
    · exact h.slots hd
  | unloaded => exact h.slots (Store.slot_unset hd)

theorem of_local {op : Opcode} (h : Housed P s) (hP : Datum.Lasting P)
    (hp : ∀ d ∈ m.program.toList, d.Throughout (P s.store.size)) (hst : Local m op s t) : Housed P t where
  toAnchored := h.toAnchored.of_same hst.calls hst.scope hst.store.size
  stack := by
    rw [hst.store.size]
    intro d hd
    exact h.origin hP hp (hst.stack d hd)
  slots := by
    rw [hst.store.size]
    exact h.written hst.store

theorem kept (h : Housed P s) : Housed P (Machine.saved s) :=
  { h with toAnchored := h.toAnchored.kept }

theorem entered (h : Housed P s) (hP : Datum.Lasting P) {c : Invocation}
    (hslots : ∀ d ∈ c.slots, d.Throughout (P s.store.size)) : Housed P (entered c s) := by
  have hle : s.store.size ≤ (Machine.entered c s).store.size := by
    rw [show (Machine.entered c s).store.size = _ from Store.size_add _ _]
    exact Nat.le_succ _
  have hmono : ∀ {d : Datum}, d.Throughout (P s.store.size) →
      d.Throughout (P (Machine.entered c s).store.size) := fun hd => hd.mono fun _ he => hP.mono he hle
  exact {
    toAnchored := h.toAnchored.entered c
    stack := fun d hd => hmono (h.stack d hd)
    slots := by
      intro id i d hd
      rcases Store.slot_add hd with hd | hd
      · have hmem : some d ∈ (c.slots.map some).toArray := Array.mem_of_getElem? hd
        exact hmono (hslots d (by simpa using hmem))
      · exact hmono (h.slots hd) }

theorem prepared {c : Invocation} (h : Housed P s) (hP : Datum.Lasting P) (hc : m.prepare s = .ok c t) :
    Housed P t ∧ c.callee.scope < t.store.size ∧ ∀ d ∈ c.slots, d.Throughout (P t.store.size) := by
  have hspent : Spent 1 s t := (prepare_ends .plain s).ok hc
  have hfrom := from_of_prepare hc
  rw [hspent.store]
  refine ⟨h.spent hspent, hP.function.1 (h.stack _ hfrom.callee _ .self), ?_⟩
  intro d hd
  rcases hfrom.slots d hd with hd | ⟨items, rfl, hitems⟩
  · exact h.stack d hd
  · exact .list (hP.list _ items) fun e he => h.stack e (hitems e he)

theorem next (h : Housed P s) (hP : Datum.Lasting P) (hfit : Fits m s)
    (hp : ∀ d ∈ m.program.toList, d.Throughout (P s.store.size)) : Housed P (m.next s) := by
  have hanchored := h.toAnchored.next hfit
  rcases spent_or_done hfit with hspent | hdone
  · exact h.spent hspent
  have hannounced : ∀ op, Housed P (announced op s) := fun op => h.spent (spent_announced op s)
  generalize m.next s = t at hdone hanchored
  cases hdone with
  | still _ => exact h
  | @instruction op t _ hst => exact (hannounced op).of_local hP hp hst
  | @tailCalled c t _ hc _ =>
    obtain ⟨ht, -, hslots⟩ := (hannounced _).prepared hP hc
    exact ht.entered hP hslots
  | @called kind c t _ hc _ _ =>
    obtain ⟨ht, -, hslots⟩ := (hannounced _).prepared hP hc
    exact ht.kept.entered hP hslots
  | returned _ _ _ => exact ⟨hanchored, h.stack, h.slots⟩

end Housed

theorem size_le_next (hfit : Fits m s) : s.store.size ≤ (m.next s).store.size := by
  rcases spent_or_done hfit with hspent | hdone
  · rw [hspent.store]
  generalize m.next s = t at hdone
  cases hdone with
  | still => exact Nat.le_refl _
  | instruction _ hst => exact Nat.le_of_eq hst.store.size.symm
  | tailCalled _ hp _ | called _ hp _ _ =>
    rw [eq_of_prepare hp]
    exact (Nat.le_succ _).trans_eq (Store.size_add _ _).symm
  | returned => exact Nat.le_refl _

theorem ReachableFrom.housed {P : Nat → Datum → Prop} (hP : Datum.Lasting P)
    (hstart : Housed P (.start store)) (hp : ∀ d ∈ m.program.toList, d.Throughout (P store.size))
    (hs : m.ReachableFrom (.start store) s) : Housed P s ∧ store.size ≤ s.store.size := by
  have hstep : ∀ t, Fits m t → Housed P t ∧ store.size ≤ t.store.size →
      Housed P (m.next t) ∧ store.size ≤ (m.next t).store.size := by
    rintro t hfit ⟨ht, hle⟩
    have hliterals : ∀ d ∈ m.program.toList, d.Throughout (P t.store.size) := fun d hd =>
      (hp d hd).mono fun _ he => hP.mono he hle
    exact ⟨ht.next hP hfit hliterals, hle.trans (size_le_next hfit)⟩
  exact (fits_start m store).invariant hstep ⟨hstart, Nat.le_refl _⟩ hs

end Machine

end StackMachine
