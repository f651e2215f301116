import StackMachine.Proofs.Arithmetic.Outcome
import StackMachine.Proofs.Machine.Bracketing

/-!
# How actions end

An action ends with a result or in a trap. `Ends` says in which states it can, and has a rule for each of
the actions that instructions are made of. Up to its last action an instruction only reads operands and
takes data off the stack (`Spent`), so that this is all that has been done where it meets a trap
(`Trapped`).
-/

namespace StackMachine

/-- The traps that carrying out an instruction can end in. The others belong to fetching it. -/
def Opcode.CanRaise (op : Opcode) : Trap → Prop
  | .outsideProgram .. | .notAnInstruction _ | .unknownOpcode _ => False
  | .unsupported r => op = .reserved r
  | _ => True

theorem Trap.IsArithmetic.canRaise {e : Trap} (h : e.IsArithmetic) (op : Opcode) : op.CanRaise e := by
  cases e with
  | outsideProgram | notAnInstruction | unknownOpcode | unsupported => exact h.elim
  | _ => trivial

namespace Machine

variable {m : Machine} {s t u : State} {k : Nat} {op : Opcode} {α β : Type}

/-! ### Reading and taking -/

/-- From `s` to `t` at most `k` operands were read and some data taken off the stack. -/
structure Spent (k : Nat) (s t : State) : Prop where
  calls : t.calls = s.calls
  scope : t.scope = s.scope
  store : t.store = s.store
  halted : t.halted = s.halted
  stack : t.stack.items <:+ s.stack.items
  le_ip : s.ip ≤ t.ip
  ip_le : t.ip ≤ s.ip + k

namespace Spent

theorem refl (k : Nat) (s : State) : Spent k s s :=
  ⟨rfl, rfl, rfl, rfl, List.suffix_rfl, Nat.le_refl _, Nat.le_add_right _ _⟩

theorem trans {j : Nat} (h : Spent j s t) (h' : Spent k t u) : Spent (j + k) s u where
  calls := h'.calls.trans h.calls
  scope := h'.scope.trans h.scope
  store := h'.store.trans h.store
  halted := h'.halted.trans h.halted
  stack := h'.stack.trans h.stack
  le_ip := Nat.le_trans h.le_ip h'.le_ip
  ip_le := by have := h.ip_le; have := h'.ip_le; omega

theorem mono {j : Nat} (h : Spent k s t) (hkj : k ≤ j) : Spent j s t :=
  { h with ip_le := by have := h.ip_le; omega }

theorem read (h : Spent k s u) : Spent (k + 1) s { u with ip := u.ip + 1 } :=
  { h with le_ip := Nat.le_succ_of_le h.le_ip, ip_le := Nat.succ_le_succ h.ip_le }

theorem taken (h : Spent k s u) {rest : Stack Datum} (hrest : rest.items <:+ u.stack.items) :
    Spent k s { u with stack := rest } :=
  { h with stack := hrest.trans h.stack }

theorem mem (h : Spent k s u) {rest : Stack Datum} {d : Datum} (hd : u.stack = rest.push d) :
    d ∈ s.stack.items := by
  refine h.stack.subset ?_
  rw [hd]
  exact List.mem_cons_self

end Spent

theorem spent_announced (op : Opcode) (s : State) : Spent 1 s (announced op s) :=
  ⟨rfl, rfl, rfl, rfl, List.suffix_rfl, Nat.le_succ _, Nat.le_refl _⟩

/-! ### How an action ends -/

/-- Started in `s`, the action ends with a result and in a state that `Q` admits, or with a trap and in a
state that `E` admits. -/
def Ends (x : Action α) (s : State) (Q : α → State → Prop) (E : Trap → State → Prop) : Prop :=
  match x s with
  | .ok a t => Q a t
  | .error e t => E e t

/-- The state in which an instruction, started in `s`, meets a trap. -/
structure Trapped (op : Opcode) (s : State) (e : Trap) (t : State) : Prop where
  raised : op.CanRaise e
  spent : Spent 2 s t

namespace Ends

variable {Q : α → State → Prop} {E : Trap → State → Prop}

theorem ok {x : Action α} {a : α} (h : Ends x s Q E) (hx : x s = .ok a t) : Q a t := by
  unfold Ends at h
  rw [hx] at h
  exact h

theorem error {x : Action α} {e : Trap} (h : Ends x s Q E) (hx : x s = .error e t) : E e t := by
  unfold Ends at h
  rw [hx] at h
  exact h

theorem mono {x : Action α} {Q' : α → State → Prop} (h : Ends x s Q E)
    (hQ : ∀ a t, Q a t → Q' a t) : Ends x s Q' E := by
  unfold Ends at h ⊢
  cases hx : x s with
  | ok a t =>
    rw [hx] at h
    exact hQ a t h
  | error e t =>
    rw [hx] at h
    exact h

theorem bind {x : Action α} {f : α → Action β} {Q : β → State → Prop}
    (h : Ends x s (fun a t => Ends (f a) t Q E) E) : Ends (x >>= f) s Q E := by
  unfold Ends at h ⊢
  simp only [Bind.bind, EStateM.bind]
  cases hx : x s with
  | ok a t =>
    rw [hx] at h
    exact h
  | error e t =>
    rw [hx] at h
    exact h

theorem pure {a : α} (h : Q a s) : Ends (pure a) s Q E := h

theorem get {Q : State → State → Prop} (h : Q s s) : Ends get s Q E := h

theorem modify {Q : Unit → State → Prop} {f : State → State} (h : Q () (f s)) :
    Ends (modify f) s Q E := h

theorem ignore {x : Action α} {f : α → β} {Q : State → Prop} (h : Ends x s (fun _ t => Q t) E) :
    Ends (x >>= fun a => Pure.pure (f a)) s (fun _ t => Q t) E :=
  bind h

theorem pop {Q : Datum → State → Prop} (h : Spent k s u) (hk : k ≤ 2)
    (hQ : ∀ d rest, u.stack = rest.push d → Spent k s { u with stack := rest } →
      Q d { u with stack := rest }) : Ends pop u Q (Trapped op s) := by
  unfold Ends Machine.pop
  cases hp : u.stack.pop? with
  | none => exact ⟨trivial, h.mono hk⟩
  | some p =>
    have hd : u.stack = p.2.push p.1 := Stack.pop?_eq_some_iff.1 hp
    refine hQ p.1 p.2 hd (h.taken ?_)
    rw [hd]
    exact List.suffix_cons p.1 p.2.items

theorem top {Q : Datum → State → Prop} (h : Spent k s u) (hk : k ≤ 2)
    (hQ : ∀ d, d ∈ s.stack.items → Q d u) : Ends top u Q (Trapped op s) := by
  unfold Ends Machine.top
  cases hd : u.stack.top? with
  | none => exact ⟨trivial, h.mono hk⟩
  | some d => exact hQ d (h.stack.subset (List.mem_of_mem_head? hd))

theorem popArguments {Q : List Datum → State → Prop} (n : Nat) (h : Spent k s u) (hk : k ≤ 2)
    (hQ : Spent k s { u with stack := u.stack.drop n } →
      Q (u.stack.take n) { u with stack := u.stack.drop n }) :
    Ends (popArguments n) u Q (Trapped op s) := by
  unfold Ends Machine.popArguments
  split
  · next h' =>
    split at h'
    · cases h'
      exact hQ (h.taken (List.drop_suffix n _))
    · cases h'
  · next h' =>
    split at h'
    · cases h'
    · cases h'
      exact ⟨trivial, h.mono hk⟩

theorem operand {Q : Datum → State → Prop} (h : Spent k s u) (hk : k ≤ 2)
    (hQ : ∀ d, m.program.get? u.ip = some d → Spent (k + 1) s { u with ip := u.ip + 1 } →
      Q d { u with ip := u.ip + 1 }) : Ends m.operand u Q (Trapped op s) := by
  unfold Ends Machine.operand
  cases hd : m.program.get? u.ip with
  | none => exact ⟨trivial, h.mono hk⟩
  | some d => exact hQ d hd h.read

theorem asInteger {Q : Int64 → State → Prop} (d : Datum) (h : Spent k s u) (hk : k ≤ 2)
    (hQ : ∀ n, Q n u) : Ends (asInteger d) u Q (Trapped op s) := by
  cases d with
  | integer n => exact hQ n
  | null | real | instruction | function | list | scope => exact ⟨trivial, h.mono hk⟩

theorem index {Q : Nat → State → Prop} (h : Spent k s u) (hk : k < 2)
    (hQ : ∀ i, Spent (k + 1) s { u with ip := u.ip + 1 } → Q i { u with ip := u.ip + 1 }) :
    Ends m.index u Q (Trapped op s) := by
  refine bind (operand h (Nat.le_of_lt hk) fun d _ hread => ?_)
  refine bind (asInteger d hread hk fun n => ?_)
  split
  · exact hQ _ hread
  · exact ⟨trivial, hread.mono hk⟩

theorem slotIndex {Q : Nat → State → Prop} (n : Int64) (h : Spent k s u) (hk : k ≤ 2)
    (hQ : ∀ i, i < m.limits.maxSlots → Q i u) : Ends (m.slotIndex n) u Q (Trapped op s) := by
  unfold Machine.slotIndex
  split
  · next hn => exact hQ _ (by omega)
  · exact ⟨trivial, h.mono hk⟩

theorem computed {r : Except Trap α} (h : Spent k s u) (hk : k ≤ 2)
    (he : ∀ e, r = .error e → op.CanRaise e) (hQ : ∀ a, r = .ok a → Q a u) :
    Ends (computed r) u Q (Trapped op s) := by
  cases r with
  | ok a => exact hQ a rfl
  | error e => exact ⟨he e rfl, h.mono hk⟩

theorem operator {Q : Datum → State → Prop} {r : Except Trap Datum} (h : Spent k s u) (hk : k ≤ 2)
    (hr : Computes r) (hQ : ∀ d, d.IsPlain → Q d u) : Ends (Machine.computed r) u Q (Trapped op s) := by
  cases hr with
  | ok hd => exact hQ _ hd
  | error he => exact ⟨he.canRaise op, h.mono hk⟩

theorem found {Q : Datum → State → Prop} {r : Except LookupError Datum} (h : Spent k s u) (hk : k ≤ 2)
    (hQ : ∀ d, r = .ok d → Q d u) : Ends (found r) u Q (Trapped op s) := by
  cases r with
  | ok d => exact hQ d rfl
  | error e => exact ⟨trivial, h.mono hk⟩

theorem push {Q : Unit → State → Prop} (d : Datum) (h : Spent k s u) (hk : k ≤ 2)
    (hQ : Q () { u with stack := u.stack.push d }) : Ends (m.push d) u Q (Trapped op s) := by
  unfold Ends Machine.push
  split
  · next h' =>
    split at h'
    · cases h'
      exact hQ
    · cases h'
  · next h' =>
    split at h'
    · cases h'
    · cases h'
      exact ⟨trivial, h.mono hk⟩

theorem push_of_lt {Q : Unit → State → Prop} (d : Datum) (hlt : u.stack.height < m.limits.stackCapacity)
    (hQ : Q () { u with stack := u.stack.push d }) : Ends (m.push d) u Q E := by
  unfold Ends Machine.push
  rw [if_pos hlt]
  exact hQ

end Ends

end Machine

end StackMachine
