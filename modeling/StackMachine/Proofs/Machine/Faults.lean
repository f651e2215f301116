import StackMachine.Proofs.Machine.Effect

/-!
# Faults are atomic

A step that meets a fault changes nothing that a later instruction could tell from its own doing: the
frames, the saved calls and the scope are those of before, and of the stack some data at the top may be
gone (`fault_atomic`). Where no instruction can be fetched the machine stays as it is, and meets the same
fault for ever.
-/

namespace StackMachine

def Trap.IsFetch : Trap → Prop
  | .outsideProgram .. | .notAnInstruction _ | .unknownOpcode _ => True
  | _ => False

theorem Opcode.CanRaise.not_isFetch {op : Opcode} {e : Trap} (h : op.CanRaise e) : ¬e.IsFetch := by
  cases e with
  | outsideProgram | notAnInstruction | unknownOpcode => exact h.elim
  | _ => exact not_false

namespace Machine

variable {m : Machine} {s : State} {store : Store} {f : Fault}

/-- A fault tells the address of the instruction, and the instruction if there is one. -/
theorem place_of_faulted (h : (m.step s).status = .faulted f) :
    f.address = s.ip ∧
      ∀ i, f.instruction = some i ↔ m.program.get? s.ip = some (.instruction i) := by
  have hs : s.halted = false := by
    cases hs : s.halted with
    | false => rfl
    | true =>
      rw [step_of_halted hs] at h
      cases h
  unfold step fetch at h
  rw [hs] at h
  cases hd : m.program.get? s.ip with
  | none =>
    rw [hd] at h
    cases h
    exact ⟨rfl, by simp⟩
  | some d =>
    rw [hd] at h
    cases d with
    | instruction i =>
      cases hop : i.opcode? with
      | none =>
        simp only [Bool.false_eq_true, ↓reduceIte, hop] at h
        cases h
        exact ⟨rfl, by simp⟩
      | some op =>
        simp only [Bool.false_eq_true, ↓reduceIte, hop] at h
        split at h
        · dsimp only at h
          split at h <;> cases h
        · cases h
          exact ⟨rfl, by simp⟩
    | null | integer | real | function | list | scope =>
      cases h
      exact ⟨rfl, by simp⟩

theorem next_of_isFetch (hfit : Fits m s) (h : (m.step s).status = .faulted f) (hf : f.trap.IsFetch) :
    m.next s = s := by
  cases hop : m.program.opcodeAt? s.ip with
  | none => exact next_of_opcodeAt?_eq_none hop
  | some op => exact absurd hf (trapped_of_faulted hfit h hop).raised.not_isFetch

/-- A fault tells where it was met, leaves frames, calls and the scope, and of the stack all but some data at
the top. If it was met in fetching, nothing has changed and every further step meets it again. -/
theorem fault_atomic (hs : m.ReachableFrom (.start store) s) (h : (m.step s).status = .faulted f) :
    f.address = s.ip ∧
    (∀ i, f.instruction = some i ↔ m.program.get? s.ip = some (.instruction i)) ∧
    (m.next s).calls = s.calls ∧ (m.next s).scope = s.scope ∧ (m.next s).halted = s.halted ∧
    (m.next s).store = s.store ∧
    (m.next s).stack.bottomUp <+: s.stack.bottomUp ∧
    s.ip ≤ (m.next s).ip ∧ (m.next s).ip ≤ s.ip + 3 ∧
    (f.trap.IsFetch → m.next s = s ∧ ∀ n, (m.step (m.after n s)).status = .faulted f) := by
  have hfit := hs.fits
  have hspent := spent_of_faulted hfit h
  obtain ⟨haddress, hinstruction⟩ := place_of_faulted h
  refine ⟨haddress, hinstruction, hspent.calls, hspent.scope, hspent.halted, hspent.store,
    List.reverse_prefix.2 hspent.stack, hspent.le_ip, hspent.ip_le, ?_⟩
  intro hf
  have hnext := next_of_isFetch hfit h hf
  refine ⟨hnext, ?_⟩
  intro n
  have hafter : m.after n s = s := Function.iterate_fixed hnext n
  rw [hafter]
  exact h

/-- The function at `2` calls itself from `11`, with one argument, and no second call is allowed. -/
def deepCall : Machine where
  program := ((((((((((Builder.empty.opWith .jump 14).functionHeader 1 false).opWith .function 2).constant
    (.integer 5)).opWith (.call .plain) 1).op .ret).opWith .function 2).constant (.integer 7)).opWith
    (.call .plain) 1).op .halt).build
  limits := ⟨8, 1, 4⟩

theorem fault_atomic_deepCall :
    ∃ s f, deepCall.ReachableFrom (.start Store.empty.addRoot) s ∧
      (deepCall.step s).status = .faulted f ∧ f.trap = .callDepthExceeded 1 ∧ f.address = 11 ∧
      s.stack.height = 2 ∧ (deepCall.next s).stack.height = 0 ∧
      (deepCall.next s).calls = s.calls ∧ (deepCall.next s).scope = s.scope ∧
      (deepCall.next s).store = s.store ∧ (deepCall.next s).stack.bottomUp <+: s.stack.bottomUp := by
  have hs : deepCall.ReachableFrom (.start Store.empty.addRoot)
      (deepCall.after 6 (.start Store.empty.addRoot)) := ⟨6, rfl⟩
  have hf : (deepCall.step (deepCall.after 6 (.start Store.empty.addRoot))).status =
      .faulted ⟨.callDepthExceeded 1, 11, some (.bare (.call .plain))⟩ := by decide +kernel
  have hbefore : (deepCall.after 6 (.start Store.empty.addRoot)).stack.height = 2 := by decide +kernel
  have hafter : (deepCall.next (deepCall.after 6 (.start Store.empty.addRoot))).stack.height = 0 := by
    decide +kernel
  obtain ⟨-, -, hcalls, hscope, -, hstore, hstack, -⟩ := fault_atomic hs hf
  exact ⟨_, _, hs, hf, rfl, rfl, hbefore, hafter, hcalls, hscope, hstore, hstack⟩

end Machine

end StackMachine
