import StackMachine.Program.Builder
import StackMachine.Proofs.Machine.Parallel

/-!
# Appended code

Whatever is put behind a program, a run that never read past the end of the program does not notice
(`appended_unobserved`). Where an instruction, an operand or a function header is missing, the machine traps
(`Trap.IsPastEnd`) and never goes on with something else in its place, so a run that met no fault has read
data of the program alone.
-/

namespace StackMachine

/-- The traps that reading past the end of a program can end in. A header is refused for what it holds,
too. -/
def Trap.IsPastEnd : Trap → Prop
  | .outsideProgram .. | .missingOperand | .malformedHeader _ => True
  | _ => False

namespace Program

variable {p : Program} {a : Nat} {d : Datum} {sig : Signature}

def append (p : Program) (data : List Datum) : Program := ⟨p.code ++ data.toArray⟩

theorem get?_append (h : p.get? a = some d) (data : List Datum) : (p.append data).get? a = some d := by
  have ha : a < p.code.size := (Array.getElem?_eq_some_iff.1 h).1
  exact (Array.getElem?_append_left ha).trans h

/-- A header that is in order stands in the program with all that is read of it. -/
theorem signature?_append (h : p.signature? a = some sig) (data : List Datum) :
    (p.append data).signature? a = some sig := by
  unfold signature? at h ⊢
  split at h
  · next parameters variadic hparameters hvariadic =>
    rw [get?_append hparameters data, get?_append hvariadic data]
    exact h
  · cases h

end Program

namespace Machine

variable {p : Program} {limits : Limits} {s : State} {data : List Datum}

/-! ### What is read of the program -/

theorem lockstep_operand_append (p : Program) (limits : Limits) (data : List Datum) :
    Lockstep Trap.IsPastEnd Eq Eq Eq (Machine.mk p limits).operand
      (Machine.mk (p.append data) limits).operand := by
  rintro s _ rfl
  unfold operand
  cases h : p.get? s.ip with
  | some d =>
    simp only [Program.get?_append h data]
    exact .ok rfl rfl
  | none => exact .excused trivial

theorem lockstep_header_append (p : Program) (limits : Limits) (data : List Datum) (a : Nat) :
    Lockstep Trap.IsPastEnd Eq Eq Eq ((Machine.mk p limits).header a)
      ((Machine.mk (p.append data) limits).header a) := by
  rintro s _ rfl
  unfold header
  cases h : p.signature? a with
  | some sig =>
    simp only [Program.signature?_append h data]
    exact .ok rfl rfl
  | none => exact .excused trivial

theorem fetch_append (p : Program) (limits : Limits) (data : List Datum) (a : Nat) :
    (Machine.mk (p.append data) limits).fetch a = (Machine.mk p limits).fetch a ∨
      ∃ e, (Machine.mk p limits).fetch a = .error e ∧ e.IsPastEnd := by
  unfold fetch
  cases h : p.get? a with
  | some d =>
    simp only [Program.get?_append h data]
    cases d <;> exact .inl rfl
  | none => exact .inr ⟨_, rfl, trivial⟩

/-! ### Runs -/

/-- All that a machine does with its program is fetch instructions and read operands and headers. -/
theorem parallel_append (p : Program) (limits : Limits) (data : List Datum) :
    Parallel Trap.IsPastEnd ⟨p, limits⟩ ⟨p.append data, limits⟩ Eq where
  scope _ _ h := congrArg State.scope h
  store _ _ h := congrArg State.store h
  push _ := .refl _
  pop := .refl _
  top := .refl _
  popArguments _ := .refl _
  operand := (lockstep_operand_append p limits data).mono (fun _ _ h => h) fun _ _ _ => trivial
  index := by
    refine (lockstep_operand_append p limits data).bind_eq fun d => ?_
    refine (Lockstep.asInteger d).bind_eq fun n => ?_
    exact .ite Iff.rfl (fun _ => .pure rfl) fun _ => .throw _
  slotIndex n := by
    refine .ite Iff.rfl (fun hn => .pure ⟨rfl, ?_⟩) fun _ => .throw _
    omega
  header := lockstep_header_append p limits data
  jump _ := .refl _
  assign _ _ _ _ _ h := by rw [h]
  unload _ _ _ h := by rw [h]
  halt _ _ h := by rw [h]
  fetch := fetch_append p limits data
  ip h := by rw [h]
  halted h := by rw [h]
  callDepth h := by rw [h]
  literal := lockstep_operand_append p limits data
  announced _ _ _ h := by rw [h]
  entered _ _ _ h := by rw [h]
  saveCaller := .refl _
  resume := .refl _

/-- With data appended to its program a machine takes the same steps and goes through the same states, up to
the first step that could have read past the end of the program. -/
theorem appended_unobserved (p : Program) (data : List Datum) (limits : Limits) (s : State) (n : Nat) :
    ((∀ k < n, ∀ f, ((Machine.mk p limits).step ((Machine.mk p limits).after k s)).status = .faulted f →
        ¬f.trap.IsPastEnd) →
      (∀ k < n, ((Machine.mk (p.append data) limits).step
          ((Machine.mk (p.append data) limits).after k s)).status =
        ((Machine.mk p limits).step ((Machine.mk p limits).after k s)).status) ∧
      ∀ k ≤ n, (Machine.mk (p.append data) limits).after k s = (Machine.mk p limits).after k s) ∧
    ∀ t, (Machine.mk p limits).run n s = (t, .halted) →
      (Machine.mk (p.append data) limits).run n s = (t, .halted) := by
  have hparallel := parallel_append p limits data
  constructor
  · intro hspared
    obtain ⟨hstatus, hstates⟩ := hparallel.after (Eq.refl s) hspared
    exact ⟨hstatus, fun k hk => (hstates k hk).symm⟩
  · intro t hrun
    obtain ⟨u, hu, rfl⟩ := hparallel.simulates.run_halted (Eq.refl s) hrun
    exact hu

/-- The function at `7` negates its argument. Its last instruction ends the program. -/
def negation : Program :=
  (((((((Builder.empty.opWith .function 7).constant (.integer 5)).opWith (.call .plain) 1).op
    .halt).functionHeader 1 false).opWith .accessLocal 0).op .negate |>.op .ret).build

theorem appended_unobserved_negation :
    (∀ k < 7, ∀ f, ((Machine.mk negation .standard).step
        ((Machine.mk negation .standard).after k .initial)).status = .faulted f → ¬f.trap.IsPastEnd) ∧
      (Machine.mk (negation.append [.instruction ⟨999, 1, "?"⟩, .scope 3]) .standard).after 6 .initial =
        (Machine.mk negation .standard).after 6 .initial ∧
      ∃ t, (Machine.mk negation .standard).run 7 .initial = (t, .halted) ∧
        (Machine.mk (negation.append [.instruction ⟨999, 1, "?"⟩, .scope 3]) .standard).run 7 .initial =
          (t, .halted) ∧
        t.stack.bottomUp = [.integer (-5)] := by
  have hstatus : ∀ k < 7, ((Machine.mk negation .standard).step
      ((Machine.mk negation .standard).after k .initial)).status ∈ [.running, .halted] := by
    decide +kernel
  have hspared : ∀ k < 7, ∀ f, ((Machine.mk negation .standard).step
      ((Machine.mk negation .standard).after k .initial)).status = .faulted f → ¬f.trap.IsPastEnd := by
    intro k hk f hf
    have hmem := hstatus k hk
    rw [hf] at hmem
    simp at hmem
  have hhalted : ((Machine.mk negation .standard).run 7 .initial).2 = .halted := by decide +kernel
  have hstack : ((Machine.mk negation .standard).run 7 .initial).1.stack.bottomUp = [.integer (-5)] := by
    decide +kernel
  have hrun : (Machine.mk negation .standard).run 7 .initial =
      (((Machine.mk negation .standard).run 7 .initial).1, .halted) := Prod.ext rfl hhalted
  obtain ⟨hsteps, hend⟩ := appended_unobserved negation [.instruction ⟨999, 1, "?"⟩, .scope 3] .standard
    .initial 7
  exact ⟨hspared, (hsteps hspared).2 6 (by decide), _, hrun, hend _ hrun, hstack⟩

end Machine

end StackMachine
