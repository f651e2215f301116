import StackMachine.Machine.Execute

/-!
# Actions in lockstep

Two actions are in `Lockstep` if, started in related states, they end alike: both with results, or both
with the same trap, in states that are related again. Nothing is said of the second one where the first
ends with an excused trap.

A relation that the elementary actions of two machines keep (`Respects`) is kept by every instruction
other than a call and a return (`Respects.execute`).
-/

namespace StackMachine.Machine

/-- The ends of two actions that count as the same. -/
inductive Alike (excused : Trap → Prop) (R : State → State → Prop) {α β : Type}
    (V : α → β → Prop) : EStateM.Result Trap State α → EStateM.Result Trap State β → Prop
  | ok {a : α} {b : β} {s t : State} : V a b → R s t → Alike excused R V (.ok a s) (.ok b t)
  | error {e : Trap} {s t : State} : R s t → Alike excused R V (.error e s) (.error e t)
  | excused {e : Trap} {s : State} {r : EStateM.Result Trap State β} : excused e →
    Alike excused R V (.error e s) r

/-- From states that `P` relates, both actions end alike, in states that `R` relates. -/
def Lockstep (excused : Trap → Prop) (P R : State → State → Prop) {α β : Type} (V : α → β → Prop)
    (x : Action α) (y : Action β) : Prop :=
  ∀ s t, P s t → Alike excused R V (x s) (y t)

namespace Lockstep

variable {excused : Trap → Prop} {P P' R : State → State → Prop} {α β γ δ : Type}
  {V V' : α → β → Prop} {W : γ → δ → Prop}

theorem refl (x : Action α) : Lockstep excused Eq Eq Eq x x := by
  rintro s _ rfl
  cases x s with
  | ok a t => exact .ok rfl rfl
  | error e t => exact .error rfl

theorem pure {a : α} {b : β} (h : V a b) : Lockstep excused R R V (pure a) (pure b) :=
  fun _ _ hR => .ok h hR

theorem throw (e : Trap) : Lockstep excused R R V (throw e) (throw e) :=
  fun _ _ hR => .error hR

theorem mono {x : Action α} {y : Action β} (h : Lockstep excused P R V x y)
    (hP : ∀ s t, P' s t → P s t) (hV : ∀ a b, V a b → V' a b) : Lockstep excused P' R V' x y := by
  intro s t hst
  have hxy := h s t (hP s t hst)
  generalize x s = r at hxy ⊢
  generalize y t = r' at hxy ⊢
  cases hxy with
  | ok hab hst => exact .ok (hV _ _ hab) hst
  | error hst => exact .error hst
  | excused he => exact .excused he

theorem bind {x : Action α} {y : Action β} {f : α → Action γ} {g : β → Action δ}
    (h : Lockstep excused P R V x y) (hf : ∀ a b, V a b → Lockstep excused R R W (f a) (g b)) :
    Lockstep excused P R W (x >>= f) (y >>= g) := by
  intro s t hst
  have hxy := h s t hst
  simp only [Bind.bind, EStateM.bind]
  generalize x s = r at hxy
  generalize y t = r' at hxy
  cases hxy with
  | ok hab hst => exact hf _ _ hab _ _ hst
  | error hst => exact .error hst
  | excused he => exact .excused he

theorem bind_eq {x y : Action α} {f : α → Action γ} {g : α → Action δ}
    (h : Lockstep excused P R Eq x y) (hf : ∀ a, Lockstep excused R R W (f a) (g a)) :
    Lockstep excused P R W (x >>= f) (y >>= g) :=
  h.bind fun a _ hab => hab ▸ hf a

theorem get : Lockstep excused R R R get get :=
  fun _ _ hR => .ok hR hR

theorem modify {f g : State → State} (h : ∀ s t, P s t → R (f s) (g t)) :
    Lockstep excused P R Eq (modify f) (modify g) :=
  fun s t hP => .ok rfl (h s t hP)

theorem ite {c d : Prop} [Decidable c] [Decidable d] {x x' : Action α} {y y' : Action β} (hcd : c ↔ d)
    (h : c → Lockstep excused P R V x y) (h' : ¬c → Lockstep excused P R V x' y') :
    Lockstep excused P R V (if c then x else x') (if d then y else y') := by
  by_cases hc : c
  · rw [if_pos hc, if_pos (hcd.1 hc)]; exact h hc
  · rw [if_neg hc, if_neg (fun hd => hc (hcd.2 hd))]; exact h' hc

theorem computed (r : Except Trap α) : Lockstep excused R R Eq (computed r) (computed r) := by
  cases r with
  | ok a => exact pure rfl
  | error e => exact throw e

theorem found (r : Except LookupError Datum) : Lockstep excused R R Eq (found r) (found r) := by
  cases r with
  | ok d => exact pure rfl
  | error e => exact throw (.lookup e)

theorem asInteger (d : Datum) : Lockstep excused R R Eq (asInteger d) (asInteger d) := by
  unfold Machine.asInteger
  cases d.asInteger with
  | ok n => exact pure rfl
  | error e => exact throw (.typeMismatch e)

end Lockstep

def header (m : Machine) (address : Nat) : Action Program.Signature :=
  match m.program.signature? address with
  | some sig => pure sig
  | none => throw (.malformedHeader address)

/-- The elementary actions of two machines keep a relation. The operand that is only passed over need
not be the same for both. -/
structure Respects (excused : Trap → Prop) (m m' : Machine) (R : State → State → Prop) : Prop where
  scope : ∀ s t, R s t → s.scope = t.scope
  store : ∀ s t, R s t → s.store = t.store
  push : ∀ d, Lockstep excused R R Eq (m.push d) (m'.push d)
  pop : Lockstep excused R R Eq pop pop
  top : Lockstep excused R R Eq top top
  popArguments : ∀ n, Lockstep excused R R Eq (popArguments n) (popArguments n)
  operand : Lockstep excused R R (fun _ _ => True) m.operand m'.operand
  index : Lockstep excused R R Eq m.index m'.index
  slotIndex : ∀ n, Lockstep excused R R (fun i j => i = j ∧ i < m.limits.maxSlots)
    (m.slotIndex n) (m'.slotIndex n)
  header : ∀ a, Lockstep excused R R Eq (m.header a) (m'.header a)
  jump : ∀ a, Lockstep excused R R Eq (jump a) (jump a)
  assign : ∀ i v s t, i < m.limits.maxSlots → R s t →
    R { s with store := s.store.set s.scope i v } { t with store := t.store.set t.scope i v }
  unload : ∀ i s t, R s t →
    R { s with store := s.store.unset globalScope i } { t with store := t.store.unset globalScope i }
  halt : ∀ s t, R s t → R { s with halted := true } { t with halted := true }

/-! ### Instructions -/

namespace Respects

variable {excused : Trap → Prop} {m m' : Machine} {R : State → State → Prop}

theorem binary (h : Respects excused m m' R) (op : BinaryOp) :
    Lockstep excused R R Eq (m.binary op) (m'.binary op) := by
  refine h.pop.bind_eq fun right => ?_
  refine h.pop.bind_eq fun left => ?_
  exact (Lockstep.computed (op.apply left right)).bind_eq h.push

theorem unary (h : Respects excused m m' R) (f : Datum → Except Trap Datum) :
    Lockstep excused R R Eq (m.unary f) (m'.unary f) := by
  refine h.pop.bind_eq fun d => ?_
  exact (Lockstep.computed (f d)).bind_eq h.push

theorem comparison (h : Respects excused m m' R) (c : Comparison) :
    Lockstep excused R R Eq (m.comparison c) (m'.comparison c) := by
  refine h.pop.bind_eq fun right => ?_
  refine h.pop.bind_eq fun left => ?_
  refine (Lockstep.computed (c.apply (.compare c) left right)).bind_eq fun b => ?_
  exact h.push (.ofBool b)

theorem chainLink (h : Respects excused m m' R) (c : Comparison) :
    Lockstep excused R R Eq (m.chainLink c) (m'.chainLink c) := by
  refine h.pop.bind_eq fun right => ?_
  refine h.pop.bind_eq fun left => ?_
  refine (Lockstep.computed (c.apply (.chain c) left right)).bind_eq fun holds => ?_
  refine h.pop.bind_eq fun before => ?_
  refine (h.push (.ofBool (before.truthy && holds))).bind_eq fun _ => ?_
  exact h.push right

theorem assignment (h : Respects excused m m' R) :
    Lockstep excused R R Eq m.assign m'.assign := by
  refine h.pop.bind_eq fun d => ?_
  refine (Lockstep.asInteger d).bind_eq fun n => ?_
  refine (h.slotIndex n).bind ?_
  rintro i _ ⟨rfl, hi⟩
  refine h.pop.bind_eq fun v => ?_
  exact Lockstep.modify fun s t hst => h.assign i v s t hi hst

theorem accessGlobal (h : Respects excused m m' R) :
    Lockstep excused R R Eq m.accessGlobal m'.accessGlobal := by
  refine h.index.bind_eq fun i => ?_
  refine h.operand.bind fun _ _ _ => ?_
  refine Lockstep.get.bind fun s t hst => ?_
  rw [h.store s t hst]
  exact (Lockstep.found (t.store.get globalScope i)).bind_eq h.push

theorem accessLocal (h : Respects excused m m' R) :
    Lockstep excused R R Eq m.accessLocal m'.accessLocal := by
  refine h.index.bind_eq fun i => ?_
  refine Lockstep.get.bind fun s t hst => ?_
  rw [h.store s t hst, h.scope s t hst]
  exact (Lockstep.found (t.store.get t.scope i)).bind_eq h.push

theorem accessLevel (h : Respects excused m m' R) :
    Lockstep excused R R Eq m.accessLevel m'.accessLevel := by
  refine h.index.bind_eq fun level => ?_
  refine h.index.bind_eq fun i => ?_
  refine Lockstep.get.bind fun s t hst => ?_
  rw [h.store s t hst, h.scope s t hst]
  exact (Lockstep.found (t.store.getAt t.scope level i)).bind_eq h.push

theorem unloading (h : Respects excused m m' R) : Lockstep excused R R Eq m.unload m'.unload :=
  h.index.bind_eq fun i => Lockstep.modify fun s t hst => h.unload i s t hst

theorem constant (h : Respects excused m m' R) {P : State → State → Prop}
    (hlit : Lockstep excused P R Eq m.operand m'.operand) :
    Lockstep excused P R Eq (m.execute .constant) (m'.execute .constant) :=
  hlit.bind_eq fun d => (h.push d).bind_eq fun _ => .pure rfl

theorem execute (h : Respects excused m m' R) {op : Opcode} (hlit : op ≠ .constant)
    (hcall : ∀ kind, op ≠ .call kind) (hret : op ≠ .ret) :
    Lockstep excused R R Eq (m.execute op) (m'.execute op) := by
  cases op with
  | constant => exact absurd rfl hlit
  | call kind => exact absurd rfl (hcall kind)
  | ret => exact absurd rfl hret
  | nothing => exact .pure rfl
  | halt => exact (Lockstep.modify h.halt).bind_eq fun _ => .pure rfl
  | binary op => exact (h.binary op).bind_eq fun _ => .pure rfl
  | not | negate | factorial => exact (h.unary _).bind_eq fun _ => .pure rfl
  | compare c => exact (h.comparison c).bind_eq fun _ => .pure rfl
  | chain c => exact (h.chainLink c).bind_eq fun _ => .pure rfl
  | function =>
    refine h.index.bind_eq fun a => ?_
    refine Lockstep.get.bind fun s t hst => ?_
    rw [h.scope s t hst]
    exact (h.push _).bind_eq fun _ => .pure rfl
  | jump => exact h.index.bind_eq fun a => (h.jump a).bind_eq fun _ => .pure rfl
  | jumpIf condition =>
    refine h.index.bind_eq fun a => ?_
    refine h.pop.bind_eq fun d => ?_
    exact .ite Iff.rfl (fun _ => (h.jump a).bind_eq fun _ => .pure rfl) fun _ => .pure rfl
  | duplicate => exact h.top.bind_eq fun d => (h.push d).bind_eq fun _ => .pure rfl
  | discard => exact h.pop.bind_eq fun _ => .pure rfl
  | swap =>
    refine h.pop.bind_eq fun right => ?_
    refine h.pop.bind_eq fun left => ?_
    exact (h.push right).bind_eq fun _ => (h.push left).bind_eq fun _ => .pure rfl
  | assignment => exact h.assignment.bind_eq fun _ => .pure rfl
  | accessGlobal => exact h.accessGlobal.bind_eq fun _ => .pure rfl
  | accessLocal => exact h.accessLocal.bind_eq fun _ => .pure rfl
  | accessSemi => exact h.accessLevel.bind_eq fun _ => .pure rfl
  | unload => exact h.unloading.bind_eq fun _ => .pure rfl
  | emptyArray | emptyList => exact (h.push _).bind_eq fun _ => .pure rfl
  | reserved r => exact (Lockstep.throw (V := fun (_ _ : Unit) => True) _).bind fun _ _ _ => .pure rfl

end Respects

end StackMachine.Machine
