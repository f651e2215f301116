import StackMachine.Program.Builder
import StackMachine.Proofs.Machine.Parallel

/-!
# Limits only cut runs short

What a program does does not depend on its limits, but for the three traps that tell of one
(`Trap.IsLimit`). Under larger limits it does the same, up to the first step that meets one of them, and
where it halts it halts with the same state (`larger_limits`).
-/

namespace StackMachine

instance : LE Limits where
  le a b := a.stackCapacity ≤ b.stackCapacity ∧ a.maxCallDepth ≤ b.maxCallDepth ∧ a.maxSlots ≤ b.maxSlots

instance (a b : Limits) : Decidable (a ≤ b) := inferInstanceAs (Decidable (_ ∧ _))

/-- The traps that a limit can bring about. A slot address is refused if it is negative, too. -/
def Trap.IsLimit : Trap → Prop
  | .stackOverflow _ | .callDepthExceeded _ | .invalidSlotAddress _ => True
  | _ => False

namespace Machine

variable {p : Program} {limits limits' : Limits} {s : State}

theorem lockstep_push (hle : limits ≤ limits') (d : Datum) : Lockstep Trap.IsLimit Eq Eq Eq
    ((Machine.mk p limits).push d) ((Machine.mk p limits').push d) := by
  rintro s _ rfl
  unfold push
  by_cases hlt : s.stack.height < limits.stackCapacity
  · have hlt' : s.stack.height < limits'.stackCapacity := Nat.lt_of_lt_of_le hlt hle.1
    rw [if_pos hlt, if_pos hlt']
    exact .ok rfl rfl
  · rw [if_neg hlt]
    exact .excused trivial

theorem lockstep_saveCaller (hle : limits ≤ limits') : Lockstep Trap.IsLimit Eq Eq Eq
    (Machine.mk p limits).saveCaller (Machine.mk p limits').saveCaller := by
  rintro s _ rfl
  unfold saveCaller
  by_cases hlt : s.callDepth < limits.maxCallDepth
  · have hlt' : s.callDepth < limits'.maxCallDepth := Nat.lt_of_lt_of_le hlt hle.2.1
    rw [if_pos hlt, if_pos hlt']
    exact .ok rfl rfl
  · rw [if_neg hlt]
    exact .excused trivial

theorem lockstep_slotIndex (hle : limits ≤ limits') (n : Int64) :
    Lockstep Trap.IsLimit Eq Eq (fun i j => i = j ∧ i < limits.maxSlots)
      ((Machine.mk p limits).slotIndex n) ((Machine.mk p limits').slotIndex n) := by
  rintro s _ rfl
  unfold slotIndex
  by_cases hn : 0 ≤ n.toInt ∧ n.toInt < limits.maxSlots
  · have hslots := hle.2.2
    have hn' : 0 ≤ n.toInt ∧ n.toInt < limits'.maxSlots := ⟨hn.1, by omega⟩
    rw [if_pos hn, if_pos hn']
    exact .ok ⟨rfl, by omega⟩ rfl
  · rw [if_neg hn]
    exact .excused trivial

/-- Only putting data on the stack, saving a caller and the address of an assignment look at a limit. -/
theorem parallel_limits (hle : limits ≤ limits') :
    Parallel Trap.IsLimit ⟨p, limits⟩ ⟨p, limits'⟩ Eq where
  scope _ _ h := congrArg State.scope h
  store _ _ h := congrArg State.store h
  push := lockstep_push hle
  pop := .refl _
  top := .refl _
  popArguments _ := .refl _
  operand := (Lockstep.refl _).mono (fun _ _ h => h) fun _ _ _ => trivial
  index := .refl _
  slotIndex := lockstep_slotIndex hle
  header _ := .refl _
  jump _ := .refl _
  assign _ _ _ _ _ h := by rw [h]
  unload _ _ _ h := by rw [h]
  halt _ _ h := by rw [h]
  fetch _ := .inl rfl
  ip h := by rw [h]
  halted h := by rw [h]
  callDepth h := by rw [h]
  literal := .refl _
  announced _ _ _ h := by rw [h]
  entered _ _ _ h := by rw [h]
  saveCaller := lockstep_saveCaller hle
  resume := .refl _

/-- Under larger limits the steps of a program have the same statuses and lead to the same states, faults
included, as long as none of them meets a limit. -/
theorem larger_limits (p : Program) (hle : limits ≤ limits') (s : State) (n : Nat) :
    ((∀ k < n, ∀ f, ((Machine.mk p limits).step ((Machine.mk p limits).after k s)).status = .faulted f →
        ¬f.trap.IsLimit) →
      (∀ k < n, ((Machine.mk p limits').step ((Machine.mk p limits').after k s)).status =
        ((Machine.mk p limits).step ((Machine.mk p limits).after k s)).status) ∧
      ∀ k ≤ n, (Machine.mk p limits').after k s = (Machine.mk p limits).after k s) ∧
    ∀ t, (Machine.mk p limits).run n s = (t, .halted) → (Machine.mk p limits').run n s = (t, .halted) := by
  have hparallel : Parallel Trap.IsLimit ⟨p, limits⟩ ⟨p, limits'⟩ Eq := parallel_limits hle
  constructor
  · intro hspared
    obtain ⟨hstatus, hstates⟩ := hparallel.after (Eq.refl s) hspared
    exact ⟨hstatus, fun k hk => (hstates k hk).symm⟩
  · intro t hrun
    obtain ⟨u, hu, rfl⟩ := hparallel.simulates.run_halted (Eq.refl s) hrun
    exact hu

/-- A division by zero, and after it an assignment to the slot `0`. -/
def divideThenAssign : Program :=
  ((((((((Builder.empty.constant (.integer 1)).constant (.integer 0)).op (.binary .div)).constant
    (.integer 5)).constant (.integer 0)).op .assignment).opWith .accessLocal 0).op .halt).build

/-- The fault of the division is met under both limits. What follows it just fits the smaller ones. -/
theorem larger_limits_divideThenAssign :
    (⟨2, 0, 1⟩ : Limits) ≤ ⟨3, 0, 9⟩ ∧
      ((Machine.mk divideThenAssign ⟨3, 0, 9⟩).step
        ((Machine.mk divideThenAssign ⟨3, 0, 9⟩).after 2 .initial)).status =
          .faulted ⟨.divisionByZero, 4, some (.bare (.binary .div))⟩ ∧
      (Machine.mk divideThenAssign ⟨3, 0, 9⟩).after 8 .initial =
        (Machine.mk divideThenAssign ⟨2, 0, 1⟩).after 8 .initial ∧
      ∃ t, (Machine.mk divideThenAssign ⟨3, 0, 9⟩).run 5
          ((Machine.mk divideThenAssign ⟨2, 0, 1⟩).after 3 .initial) = (t, .halted) ∧
        t.stack.bottomUp = [.integer 5] := by
  have hle : (⟨2, 0, 1⟩ : Limits) ≤ ⟨3, 0, 9⟩ := by decide
  have hstatus : ∀ k < 8, ((Machine.mk divideThenAssign ⟨2, 0, 1⟩).step
      ((Machine.mk divideThenAssign ⟨2, 0, 1⟩).after k .initial)).status ∈
        [.running, .halted, .faulted ⟨.divisionByZero, 4, some (.bare (.binary .div))⟩] := by
    decide +kernel
  have hfault : ((Machine.mk divideThenAssign ⟨2, 0, 1⟩).step
      ((Machine.mk divideThenAssign ⟨2, 0, 1⟩).after 2 .initial)).status =
        .faulted ⟨.divisionByZero, 4, some (.bare (.binary .div))⟩ := by decide +kernel
  have hhalted : ((Machine.mk divideThenAssign ⟨2, 0, 1⟩).run 5
      ((Machine.mk divideThenAssign ⟨2, 0, 1⟩).after 3 .initial)).2 = .halted := by decide +kernel
  have hstack : ((Machine.mk divideThenAssign ⟨2, 0, 1⟩).run 5
      ((Machine.mk divideThenAssign ⟨2, 0, 1⟩).after 3 .initial)).1.stack.bottomUp = [.integer 5] := by
    decide +kernel
  have hspared : ∀ k < 8, ∀ f, ((Machine.mk divideThenAssign ⟨2, 0, 1⟩).step
      ((Machine.mk divideThenAssign ⟨2, 0, 1⟩).after k .initial)).status = .faulted f →
        ¬f.trap.IsLimit := by
    intro k hk f hf
    have hmem := hstatus k hk
    rw [hf] at hmem
    obtain rfl : f = ⟨.divisionByZero, 4, some (.bare (.binary .div))⟩ := by simpa using hmem
    exact not_false
  obtain ⟨hsame, hstates⟩ := (larger_limits divideThenAssign hle .initial 8).1 hspared
  exact ⟨hle, (hsame 2 (by decide)).trans hfault, hstates 8 (by decide), _,
    (larger_limits divideThenAssign hle _ 5).2 _ (Prod.ext rfl hhalted), hstack⟩

end Machine

end StackMachine
