import StackMachine.Proofs.Machine.Lockstep
import StackMachine.Proofs.Machine.Run

/-!
# Invariants of the elementary actions

A property of states that every elementary change keeps (`Keeps`) is kept by every instruction other
than a call and a return, whether it is carried out or trapped (`Keeps.execute`).
-/

namespace StackMachine

namespace Machine

def Same (P : State → Prop) (s t : State) : Prop := s = t ∧ P s

/-- The elementary changes of a state keep a property. -/
structure Keeps (m : Machine) (P : State → Prop) : Prop where
  push : ∀ s d, P s → s.stack.height < m.limits.stackCapacity → P { s with stack := s.stack.push d }
  pop : ∀ s d rest, P s → s.stack = rest.push d → P { s with stack := rest }
  drop : ∀ s n, P s → P { s with stack := s.stack.drop n }
  ip : ∀ s a, P s → P { s with ip := a }
  assign : ∀ s i v, i < m.limits.maxSlots → P s → P { s with store := s.store.set s.scope i v }
  unload : ∀ s i, P s → P { s with store := s.store.unset globalScope i }
  halt : ∀ s, P s → P { s with halted := true }

variable {m : Machine} {P : State → Prop} {s : State} {α : Type}

theorem Lockstep.of_leaves {V : α → α → Prop} {x : Action α} (hV : ∀ a s t, x s = .ok a t → V a a)
    (h : ∀ s, P s → P (leaves (x s))) : Lockstep (fun _ => False) (Same P) (Same P) V x x := by
  rintro s _ ⟨rfl, hs⟩
  have ht := h s hs
  cases hx : x s with
  | ok a t => rw [hx] at ht; exact .ok (hV a s t hx) ⟨rfl, ht⟩
  | error e t => rw [hx] at ht; exact .error ⟨rfl, ht⟩

theorem Lockstep.leaves {V : α → α → Prop} {x : Action α}
    (h : Lockstep (fun _ => False) (Same P) (Same P) V x x) (hs : P s) : P (leaves (x s)) := by
  have hx := h s s ⟨rfl, hs⟩
  generalize x s = r at hx ⊢
  cases hx with
  | ok _ ht => exact ht.2
  | error ht => exact ht.2
  | excused he => exact he.elim

namespace Keeps

theorem literal (h : Keeps m P) :
    Lockstep (fun _ => False) (Same P) (Same P) Eq m.operand m.operand := by
  refine .of_leaves (fun _ _ _ _ => rfl) ?_
  intro s hs
  unfold operand
  split
  · exact h.ip s _ hs
  · exact hs

theorem respects (h : Keeps m P) : Respects (fun _ => False) m m (Same P) where
  scope := by rintro s _ ⟨rfl, -⟩; rfl
  store := by rintro s _ ⟨rfl, -⟩; rfl
  push d := by
    refine .of_leaves (fun _ _ _ _ => rfl) ?_
    intro s hs
    unfold Machine.push
    split
    · next hlt => exact h.push s d hs hlt
    · exact hs
  pop := by
    refine .of_leaves (fun _ _ _ _ => rfl) ?_
    intro s hs
    unfold Machine.pop
    split
    · next d rest hp => exact h.pop s d rest hs (Stack.pop?_eq_some_iff.1 hp)
    · exact hs
  top := by
    refine .of_leaves (fun _ _ _ _ => rfl) ?_
    intro s hs
    unfold top
    split <;> exact hs
  popArguments n := by
    refine .of_leaves (fun _ _ _ _ => rfl) ?_
    intro s hs
    unfold popArguments
    split
    · exact h.drop s n hs
    · exact hs
  operand := h.literal.mono (fun _ _ hst => hst) fun _ _ _ => trivial
  index := by
    refine h.literal.bind_eq fun d => ?_
    refine (Lockstep.asInteger d).bind_eq fun n => ?_
    exact .ite Iff.rfl (fun _ => .pure rfl) fun _ => .throw _
  slotIndex n := by
    refine .of_leaves ?_ ?_
    · intro i s t hi
      unfold slotIndex at hi
      split at hi
      · cases hi
        omega
      · cases hi
    · intro s hs
      unfold slotIndex
      split <;> exact hs
  header a := by
    unfold header
    cases m.program.signature? a with
    | some sig => exact .pure rfl
    | none => exact .throw _
  jump a := .modify fun s _ ⟨hst, hs⟩ => ⟨by rw [hst], h.ip s a hs⟩
  assign i v s _ hi := fun ⟨hst, hs⟩ => ⟨by rw [hst], h.assign s i v hi hs⟩
  unload i s _ := fun ⟨hst, hs⟩ => ⟨by rw [hst], h.unload s i hs⟩
  halt s _ := fun ⟨hst, hs⟩ => ⟨by rw [hst], h.halt s hs⟩

theorem execute (h : Keeps m P) {op : Opcode} (hcall : ∀ kind, op ≠ .call kind) (hret : op ≠ .ret)
    (hs : P s) : P (leaves (m.execute op s)) := by
  by_cases hop : op = .constant
  · subst hop
    exact (h.respects.constant h.literal).leaves hs
  · exact (h.respects.execute hop hcall hret).leaves hs

end Keeps

end Machine

end StackMachine
