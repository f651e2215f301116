import StackMachine.Proofs.Machine.Calls

/-!
# Two machines in step

`Progress` is what one step of a machine may come to if a relation to the states of a second machine is
to survive: both machines step, or only the first does and a call of its ends, or it meets an excused
trap. If every pair of related states makes progress, the second machine halts wherever the first does,
in no more steps and no deeper in calls (`Simulates.run_halted`, `Simulates.peakDepth_le`), and the first
one halts wherever the second does, unless it meets an excused trap (`Simulates.run_halted_back`).
-/

namespace StackMachine.Machine

/-- What can come of one step of the first machine. -/
inductive Progress (excused : Trap → Prop) (m m' : Machine) (R : State → State → Prop) (s t : State) : Prop
  | both : (m.step s).status = .running → (m'.step t).status = .running → R (m.next s) (m'.next t) →
    Progress excused m m' R s t
  | alone : (m.step s).status = .running → (m.next s).callDepth < s.callDepth → R (m.next s) t →
    Progress excused m m' R s t
  | halted : (m.step s).status = .halted → (m'.step t).status = .halted → R (m.next s) (m'.next t) →
    Progress excused m m' R s t
  | faulted {f f' : Fault} : (m.step s).status = .faulted f → (m'.step t).status = .faulted f' →
    Progress excused m m' R s t
  | excused {f : Fault} : (m.step s).status = .faulted f → excused f.trap → Progress excused m m' R s t

/-- The largest call depth of a run of at most `n` steps. -/
def peakDepth (m : Machine) (n : Nat) (s : State) : Nat :=
  (Finset.range (n + 1)).sup fun k => (m.after k s).callDepth

/-- Related states make progress, and the second machine is no deeper in calls. -/
structure Simulates (excused : Trap → Prop) (m m' : Machine) (R : State → State → Prop) : Prop where
  progress : ∀ s t, R s t → Progress excused m m' R s t
  depth : ∀ s t, R s t → t.callDepth ≤ s.callDepth

theorem Progress.of_alike {excused : Trap → Prop} {m m' : Machine} {R : State → State → Prop} {s t : State}
    {V : Option Event → Option Event → Prop} {op op' : Opcode} (hs : s.halted = false)
    (ht : t.halted = false) (hop : m.program.opcodeAt? s.ip = some op)
    (hop' : m'.program.opcodeAt? t.ip = some op') (hR : ∀ u v, R u v → u.halted = v.halted)
    (h : Alike excused R V (m.execute op (announced op s)) (m'.execute op' (announced op' t))) :
    Progress excused m m' R s t := by
  generalize hx : m.execute op (announced op s) = x at h
  generalize hy : m'.execute op' (announced op' t) = y at h
  cases h with
  | @ok r r' u v _ huv =>
    obtain ⟨hnext, hstatus⟩ := step_of_ok hs hop hx
    obtain ⟨hnext', hstatus'⟩ := step_of_ok ht hop' hy
    rw [← hR u v huv] at hstatus'
    rw [← hnext, ← hnext'] at huv
    cases hu : u.halted with
    | false => exact .both (by simp [hstatus, hu]) (by simp [hstatus', hu]) huv
    | true => exact .halted (by simp [hstatus, hu]) (by simp [hstatus', hu]) huv
  | error _ =>
    obtain ⟨-, i, hi⟩ := step_of_error hs hop hx
    obtain ⟨-, j, hj⟩ := step_of_error ht hop' hy
    exact .faulted hi hj
  | excused he =>
    obtain ⟨-, i, hi⟩ := step_of_error hs hop hx
    exact .excused hi he

theorem Progress.mono {excused : Trap → Prop} {m m' : Machine} {R R' : State → State → Prop}
    {s t : State} (h : Progress excused m m' R s t) (hR : ∀ u v, R u v → R' u v) :
    Progress excused m m' R' s t := by
  cases h with
  | both hs ht hnext => exact .both hs ht (hR _ _ hnext)
  | alone hs hlt hnext => exact .alone hs hlt (hR _ _ hnext)
  | halted hs ht hnext => exact .halted hs ht (hR _ _ hnext)
  | faulted hs ht => exact .faulted hs ht
  | excused hs he => exact .excused hs he

namespace Simulates

variable {excused : Trap → Prop} {m m' : Machine} {R : State → State → Prop} {s t u v : State} {n : Nat}

theorem run_halted (h : Simulates excused m m' R) (hR : R s t) (hrun : m.run n s = (u, .halted)) :
    ∃ v, m'.run n t = (v, .halted) ∧ R u v := by
  induction n generalizing s t with
  | zero => cases hrun
  | succ n ih =>
    cases h.progress s t hR with
    | both hs ht hnext =>
      rw [run_succ_of_running hs] at hrun
      rw [run_succ_of_running ht]
      exact ih hnext hrun
    | alone hs _ hnext =>
      rw [run_succ_of_running hs] at hrun
      obtain ⟨v, hv, huv⟩ := ih hnext hrun
      exact ⟨v, run_mono hv (by simp) (Nat.le_succ n), huv⟩
    | halted hs ht hnext =>
      rw [run_succ_of_halted hs] at hrun
      obtain ⟨rfl, -⟩ := Prod.mk.inj hrun
      exact ⟨_, run_succ_of_halted ht, hnext⟩
    | faulted hs _ => rw [run_succ_of_faulted hs] at hrun; cases hrun
    | excused hs _ => rw [run_succ_of_faulted hs] at hrun; cases hrun

/-- Every depth of the second run is at most one of the first. -/
theorem exists_depth_le (h : Simulates excused m m' R) (hR : R s t) (hrun : m.run n s = (u, .halted))
    (k : Nat) : ∃ j ≤ n, (m'.after k t).callDepth ≤ (m.after j s).callDepth := by
  induction n generalizing s t k with
  | zero => cases hrun
  | succ n ih =>
    have later {t' : State} (hs : (m.step s).status = .running) (hnext : R (m.next s) t') (k : Nat) :
        ∃ j ≤ n + 1, (m'.after k t').callDepth ≤ (m.after j s).callDepth := by
      rw [run_succ_of_running hs] at hrun
      obtain ⟨j, hj, hle⟩ := ih hnext hrun k
      exact ⟨j + 1, Nat.succ_le_succ hj, hle⟩
    cases k with
    | zero => exact ⟨0, Nat.zero_le _, h.depth s t hR⟩
    | succ k =>
      cases h.progress s t hR with
      | both hs ht hnext => exact later hs hnext k
      | alone hs _ hnext => exact later hs hnext (k + 1)
      | halted hs ht hnext =>
        refine ⟨1, Nat.succ_le_succ (Nat.zero_le n), ?_⟩
        rw [after_succ, after_of_halted (halted_of_step ht)]
        exact h.depth _ _ hnext
      | faulted hs _ => rw [run_succ_of_faulted hs] at hrun; cases hrun
      | excused hs _ => rw [run_succ_of_faulted hs] at hrun; cases hrun

theorem peakDepth_le (h : Simulates excused m m' R) (hR : R s t) (hrun : m.run n s = (u, .halted)) :
    m'.peakDepth n t ≤ m.peakDepth n s := by
  refine Finset.sup_le fun k _ => ?_
  obtain ⟨j, hj, hle⟩ := h.exists_depth_le hR hrun k
  exact hle.trans (Finset.le_sup (f := fun j => (m.after j s).callDepth)
    (Finset.mem_range.2 (Nat.lt_succ_of_le hj)))

/-- The first machine's own steps end, as each of them ends a call. -/
theorem run_halted_back (h : Simulates excused m m' R) (hR : R s t) (hrun : m'.run n t = (v, .halted)) :
    ∃ k u, m.run k s = (u, .halted) ∧ R u v ∨
      ∃ f, m.run k s = (u, .faulted f) ∧ excused f.trap := by
  induction n generalizing s t with
  | zero => cases hrun
  | succ n ih =>
    induction hd : s.callDepth using Nat.strongRecOn generalizing s with
    | ind d ihd =>
      cases h.progress s t hR with
      | both hs ht hnext =>
        rw [run_succ_of_running ht] at hrun
        obtain ⟨k, u, hk⟩ := ih hnext hrun
        refine ⟨k + 1, u, ?_⟩
        rw [run_succ_of_running hs]
        exact hk
      | alone hs hlt hnext =>
        obtain ⟨k, u, hk⟩ := ihd _ (hd ▸ hlt) hnext rfl
        refine ⟨k + 1, u, ?_⟩
        rw [run_succ_of_running hs]
        exact hk
      | halted hs ht hnext =>
        rw [run_succ_of_halted ht] at hrun
        obtain ⟨rfl, -⟩ := Prod.mk.inj hrun
        exact ⟨1, _, .inl ⟨run_succ_of_halted hs, hnext⟩⟩
      | faulted _ ht => rw [run_succ_of_faulted ht] at hrun; cases hrun
      | excused hs he => exact ⟨1, _, .inr ⟨_, run_succ_of_faulted hs, he⟩⟩

end Simulates

end StackMachine.Machine
