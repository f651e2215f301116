import Mathlib.Logic.Function.Iterate
import StackMachine.Machine.Step

/-!
# Runs

`after n` is where `n` steps lead, whatever their status: a step that meets a fault is followed by the
next one from the state that the fault left, and a machine that has halted stays. `ReachableFrom` collects
these states, and what every step keeps holds in all of them (`ReachableFrom.invariant`). A run goes through
them up to the step that ends it (`exists_running_of_run`).
-/

namespace StackMachine

def Program.opcodeAt? (p : Program) (address : Nat) : Option Opcode :=
  match p.get? address with
  | some (.instruction i) => i.opcode?
  | _ => none

theorem Program.opcodeAt?_eq_some_iff {p : Program} {address : Nat} {op : Opcode} :
    p.opcodeAt? address = some op ↔
      ∃ i, p.get? address = some (.instruction i) ∧ i.opcode? = some op := by
  unfold opcodeAt?
  split
  · next i h => simp [h]
  · next h =>
    simp only [reduceCtorEq, false_iff, not_exists, not_and]
    exact fun i hi => absurd hi (h i)

/-- The state in which a program starts whose literals name frames of `store`. One that names none starts
with the global frame alone, in the initial state. -/
def State.start (store : Store) : State := { State.initial with store := store }

namespace Machine

variable (m : Machine)

def next (s : State) : State := (m.step s).state

def after (n : Nat) (s : State) : State := m.next^[n] s

/-- Steps lead from the one state to the other, some of them perhaps to faults. -/
def ReachableFrom (s t : State) : Prop := ∃ n, m.after n s = t

def Reachable (s : State) : Prop := m.ReachableFrom .initial s

variable {m} {s t u : State} {n k : Nat} {α : Type}

@[simp] theorem after_zero : m.after 0 s = s := rfl

theorem after_succ : m.after (n + 1) s = m.after n (m.next s) := rfl

theorem after_succ' : m.after (n + 1) s = m.next (m.after n s) :=
  Function.iterate_succ_apply' m.next n s

theorem after_invariant {P : State → Prop} (step : ∀ s, P s → P (m.next s)) (h : P s) (n : Nat) :
    P (m.after n s) := by
  induction n with
  | zero => exact h
  | succ n ih => rw [after_succ']; exact step _ ih

theorem ReachableFrom.invariant {P : State → Prop} (start : P s) (step : ∀ s, P s → P (m.next s))
    (h : m.ReachableFrom s t) : P t := by
  obtain ⟨n, rfl⟩ := h
  exact after_invariant step start n

/-! ### One step -/

theorem step_of_halted (h : s.halted = true) : m.step s = ⟨s, .halted, []⟩ := by
  simp [step, h]

theorem after_of_halted (h : s.halted = true) : m.after n s = s := by
  have hn : m.next s = s := by rw [next, step_of_halted h]
  exact Function.iterate_fixed hn n

/-- The state in which the instruction `op` is carried out. -/
def announced (op : Opcode) (s : State) : State :=
  { s with ip := s.ip + 1, warned := s.warned || op == .emptyArray }

@[simp] theorem ip_announced (op : Opcode) : (announced op s).ip = s.ip + 1 := rfl

@[simp] theorem stack_announced (op : Opcode) : (announced op s).stack = s.stack := rfl

@[simp] theorem calls_announced (op : Opcode) : (announced op s).calls = s.calls := rfl

@[simp] theorem scope_announced (op : Opcode) : (announced op s).scope = s.scope := rfl

@[simp] theorem store_announced (op : Opcode) : (announced op s).store = s.store := rfl

@[simp] theorem halted_announced (op : Opcode) : (announced op s).halted = s.halted := rfl

theorem warned_announced {op : Opcode} (h : op ≠ .emptyArray) : (announced op s).warned = s.warned := by
  simp [announced, h]

theorem announced_of_ne {op : Opcode} (h : op ≠ .emptyArray) : announced op s = { s with ip := s.ip + 1 } := by
  simp [announced, h]

def leaves : EStateM.Result Trap State α → State
  | .ok _ s => s
  | .error _ s => s

/-- What a step comes to once the instruction has been carried out. -/
def outcome (s : State) (i : Instruction) (events : List Event) :
    EStateM.Result Trap State (Option Event) → Outcome
  | .ok reported t => ⟨t, if t.halted then .halted else .running, events ++ reported.toList⟩
  | .error trap t => ⟨t, .faulted ⟨trap, s.ip, some i⟩, events⟩

theorem step_of_opcode {i : Instruction} {op : Opcode} (hs : s.halted = false)
    (hi : m.program.get? s.ip = some (.instruction i)) (hop : i.opcode? = some op) :
    m.step s = outcome s i (announce op s).2 (m.execute op (announced op s)) := by
  simp only [step, hs, fetch, hi, hop, Bool.false_eq_true, ↓reduceIte]
  rfl

theorem step_of_ok {op : Opcode} {r : Option Event} (hs : s.halted = false)
    (hop : m.program.opcodeAt? s.ip = some op) (h : m.execute op (announced op s) = .ok r t) :
    m.next s = t ∧ (m.step s).status = if t.halted then .halted else .running := by
  obtain ⟨i, hi, hio⟩ := Program.opcodeAt?_eq_some_iff.1 hop
  rw [next, step_of_opcode hs hi hio, h]
  exact ⟨rfl, rfl⟩

theorem step_of_error {op : Opcode} {e : Trap} (hs : s.halted = false)
    (hop : m.program.opcodeAt? s.ip = some op) (h : m.execute op (announced op s) = .error e t) :
    m.next s = t ∧ ∃ i, (m.step s).status = .faulted ⟨e, s.ip, some i⟩ := by
  obtain ⟨i, hi, hio⟩ := Program.opcodeAt?_eq_some_iff.1 hop
  rw [next, step_of_opcode hs hi hio, h]
  exact ⟨rfl, i, rfl⟩

theorem next_of_opcode {op : Opcode} (hs : s.halted = false)
    (hop : m.program.opcodeAt? s.ip = some op) :
    m.next s = leaves (m.execute op (announced op s)) := by
  cases h : m.execute op (announced op s) with
  | ok r t => exact (step_of_ok hs hop h).1
  | error e t => exact (step_of_error hs hop h).1

theorem running_of_opcode {op : Opcode} (hs : s.halted = false)
    (hop : m.program.opcodeAt? s.ip = some op) :
    (m.step s).status = .running ↔
      ∃ r t, m.execute op (announced op s) = .ok r t ∧ t.halted = false := by
  cases h : m.execute op (announced op s) with
  | ok r t =>
    rw [(step_of_ok hs hop h).2]
    constructor
    · intro ht
      exact ⟨r, t, rfl, by simpa using ht⟩
    · rintro ⟨_, _, ⟨⟩, ht⟩
      simp [ht]
  | error e t =>
    obtain ⟨-, i, hi⟩ := step_of_error hs hop h
    simp [hi]

theorem not_halted_of_running (h : (m.step s).status = .running) : s.halted = false := by
  cases hs : s.halted
  · rfl
  · rw [step_of_halted hs] at h; cases h

/-- Where there is no instruction with a known opcode, a step changes nothing. -/
theorem step_of_opcodeAt?_eq_none (hs : s.halted = false) (h : m.program.opcodeAt? s.ip = none) :
    ∃ f, m.step s = ⟨s, .faulted f, []⟩ := by
  unfold Program.opcodeAt? at h
  unfold step fetch
  rw [hs]
  split at h
  · next i hi => simp [hi, h]
  · next hi =>
    cases hd : m.program.get? s.ip with
    | none => simp
    | some d =>
      cases d with
      | instruction i => exact absurd hd (hi i)
      | null | integer | real | function | list | scope => simp

/-- A step that meets no fault carries out an instruction. -/
theorem exists_execute_of_not_faulted (hs : s.halted = false) (h : ∀ f, (m.step s).status ≠ .faulted f) :
    ∃ op r, m.program.opcodeAt? s.ip = some op ∧ m.execute op (announced op s) = .ok r (m.next s) := by
  cases hop : m.program.opcodeAt? s.ip with
  | none =>
    obtain ⟨f, hf⟩ := step_of_opcodeAt?_eq_none hs hop
    exact absurd (congrArg Outcome.status hf) (h f)
  | some op =>
    cases hx : m.execute op (announced op s) with
    | error e t =>
      obtain ⟨-, i, hi⟩ := step_of_error hs hop hx
      exact absurd hi (h _)
    | ok r t =>
      rw [(step_of_ok hs hop hx).1]
      exact ⟨op, r, rfl, hx⟩

/-! ### Runs that end -/

theorem run_succ : m.run (n + 1) s =
    match (m.step s).status with
    | .running => m.run n (m.step s).state
    | status => ((m.step s).state, status) := by
  cases hs : (m.step s).status <;> simp only [run, observe, hs]

theorem run_succ_of_running (h : (m.step s).status = .running) :
    m.run (n + 1) s = m.run n (m.next s) := by
  rw [run_succ, h]; rfl

theorem run_succ_of_halted (h : (m.step s).status = .halted) :
    m.run (n + 1) s = (m.next s, .halted) := by
  rw [run_succ, h]; rfl

theorem run_succ_of_faulted {f : Fault} (h : (m.step s).status = .faulted f) :
    m.run (n + 1) s = (m.next s, .faulted f) := by
  rw [run_succ, h]; rfl

theorem observe_succ {record : α → Outcome → α} {a : α} : m.observe record (n + 1) a s =
    if (m.step s).status = .running then m.observe record n (record a (m.step s)) (m.next s)
    else (record a (m.step s), m.next s, (m.step s).status) := by
  rw [observe]
  cases hs : (m.step s).status <;> simp [next]

theorem observe_snd (record : α → Outcome → α) (n : Nat) (a : α) (s : State) :
    (m.observe record n a s).2 = m.run n s := by
  induction n generalizing a s with
  | zero => rfl
  | succ n ih =>
    rw [run, observe_succ, observe_succ]
    split
    · rw [ih]
      rfl
    · rfl

/-- A run that has come to an end does so under every larger budget. -/
theorem observe_mono {record : α → Outcome → α} {a : α} (h : (m.observe record n a s).2.2 ≠ .running)
    (hk : n ≤ k) : m.observe record k a s = m.observe record n a s := by
  induction n generalizing k a s with
  | zero => exact absurd rfl h
  | succ n ih =>
    obtain ⟨k, rfl⟩ : ∃ j, k = j + 1 := ⟨k - 1, by omega⟩
    rw [observe_succ] at h
    rw [observe_succ, observe_succ]
    split
    · next hs =>
      rw [if_pos hs] at h
      exact ih h (by omega)
    · rfl

theorem run_mono {status : Status} (h : m.run n s = (t, status)) (hstatus : status ≠ .running)
    (hk : n ≤ k) : m.run k s = (t, status) := by
  have hend : (m.observe (fun (_ : Unit) _ => ()) n () s).2.2 ≠ .running := by
    rw [observe_snd, h]
    exact hstatus
  rw [run, observe_mono hend hk, observe_snd, h]

theorem halted_of_step (h : (m.step s).status = .halted) : (m.next s).halted = true := by
  revert h
  unfold next step
  split
  · next hs => exact fun _ => hs
  · split
    · simp
    · split
      · simp
      · dsimp only
        split
        · next t _ => cases t.halted <;> simp
        · simp

theorem not_halted_of_step (h : (m.step s).status = .running) : (m.next s).halted = false := by
  have hs := not_halted_of_running h
  have hfault : ∀ f, (m.step s).status ≠ .faulted f := by simp [h]
  obtain ⟨op, r, hop, hx⟩ := exists_execute_of_not_faulted hs hfault
  have hstatus := (step_of_ok hs hop hx).2
  rw [h] at hstatus
  split at hstatus
  · cases hstatus
  · next ht => exact eq_false_of_ne_true ht

theorem after_of_run_running (h : m.run n s = (t, .running)) (hs : s.halted = false) :
    m.after n s = t ∧ t.halted = false := by
  induction n generalizing s with
  | zero =>
    obtain ⟨rfl, -⟩ := Prod.mk.inj h
    exact ⟨rfl, hs⟩
  | succ n ih =>
    cases hstep : (m.step s).status with
    | running =>
      rw [run_succ_of_running hstep] at h
      exact ih h (not_halted_of_step hstep)
    | halted => rw [run_succ_of_halted hstep] at h; cases h
    | faulted f => rw [run_succ_of_faulted hstep] at h; cases h

theorem run_add (h : m.run n s = (t, .running)) : m.run (n + k) s = m.run k t := by
  induction n generalizing s with
  | zero =>
    obtain ⟨rfl, -⟩ := Prod.mk.inj h
    rw [Nat.zero_add]
  | succ n ih =>
    cases hstep : (m.step s).status with
    | running =>
      rw [run_succ_of_running hstep] at h
      rw [Nat.add_right_comm, run_succ_of_running hstep]
      exact ih h
    | halted => rw [run_succ_of_halted hstep] at h; cases h
    | faulted f => rw [run_succ_of_faulted hstep] at h; cases h

theorem run_one_of_ok {op : Opcode} {r : Option Event} (hs : s.halted = false)
    (hop : m.program.opcodeAt? s.ip = some op) (h : m.execute op (announced op s) = .ok r t)
    (ht : t.halted = false) : m.run 1 s = (t, .running) := by
  obtain ⟨hnext, hstatus⟩ := step_of_ok hs hop h
  rw [ht] at hstatus
  rw [run_succ_of_running hstatus, hnext]
  rfl

theorem run_one_of_error {op : Opcode} {e : Trap} (hs : s.halted = false)
    (hop : m.program.opcodeAt? s.ip = some op) (h : m.execute op (announced op s) = .error e t) :
    ∃ i, m.run 1 s = (t, .faulted ⟨e, s.ip, some i⟩) := by
  obtain ⟨hnext, i, hstatus⟩ := step_of_error hs hop h
  exact ⟨i, by rw [run_succ_of_faulted hstatus, hnext]⟩

/-- The last step of a run that comes to an end is the only one that does not leave the machine running. -/
theorem run_eq_of_running (h : m.run n s = (t, .running)) (hstatus : (m.step t).status ≠ .running) :
    m.run (n + 1) s = (m.next t, (m.step t).status) := by
  induction n generalizing s with
  | zero =>
    obtain ⟨rfl, -⟩ := Prod.mk.inj h
    rw [run, observe_succ, if_neg hstatus]
  | succ n ih =>
    cases hstep : (m.step s).status with
    | running =>
      rw [run_succ_of_running hstep] at h ⊢
      exact ih h
    | halted => rw [run_succ_of_halted hstep] at h; cases h
    | faulted f => rw [run_succ_of_faulted hstep] at h; cases h

theorem exists_running_of_run {status : Status} (h : m.run n s = (t, status))
    (hstatus : status ≠ .running) :
    ∃ k u, m.run k s = (u, .running) ∧ (m.step u).status = status ∧ m.next u = t := by
  induction n generalizing s with
  | zero =>
    obtain ⟨-, rfl⟩ := Prod.mk.inj h
    exact absurd rfl hstatus
  | succ n ih =>
    by_cases hstep : (m.step s).status = .running
    · rw [run_succ_of_running hstep] at h
      obtain ⟨k, u, hk, hu⟩ := ih h
      refine ⟨k + 1, u, ?_, hu⟩
      rw [run_succ_of_running hstep]
      exact hk
    · rw [run, observe_succ, if_neg hstep] at h
      obtain ⟨hnext, hend⟩ := Prod.mk.inj h
      exact ⟨0, s, rfl, hend, hnext⟩

end Machine

end StackMachine
