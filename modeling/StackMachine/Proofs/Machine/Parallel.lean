import StackMachine.Proofs.Machine.Simulation

/-!
# Machines that run in parallel

Two machines are `Parallel` with respect to a relation between their states if their elementary actions
keep it and both fetch the same instructions. Then each step of the first one is matched by a step of the
second with the same status, up to the first step that meets an excused trap (`Parallel.step`), and so are
all steps before it (`Parallel.after`). Where the first machine halts, the second one does so too, after as
many steps (`Parallel.simulates`).
-/

namespace StackMachine.Machine

/-- Two machines whose elementary actions keep `R`, those of calls and returns among them. Where they do not
fetch the same, the first one is excused. -/
structure Parallel (excused : Trap → Prop) (m m' : Machine) (R : State → State → Prop) : Prop
    extends Respects excused m m' R where
  fetch : ∀ a, m'.fetch a = m.fetch a ∨ ∃ e, m.fetch a = .error e ∧ excused e
  ip : ∀ {s t}, R s t → t.ip = s.ip
  halted : ∀ {s t}, R s t → t.halted = s.halted
  callDepth : ∀ {s t}, R s t → t.callDepth = s.callDepth
  literal : Lockstep excused R R Eq m.operand m'.operand
  announced : ∀ op {s t}, R s t → R (announced op s) (announced op t)
  entered : ∀ c {s t}, R s t → R (entered c s) (entered c t)
  saveCaller : Lockstep excused R R Eq m.saveCaller m'.saveCaller
  resume : Lockstep excused R R Eq resume resume

variable {excused : Trap → Prop} {m m' : Machine} {R : State → State → Prop} {s t : State} {i : Instruction}

/-! ### Fetching -/

theorem fetch_eq_ok {a : Nat} : m.fetch a = .ok i ↔ m.program.get? a = some (.instruction i) := by
  unfold fetch
  cases m.program.get? a with
  | none => simp
  | some d => cases d <;> simp

theorem step_of_fetch_error {e : Trap} (hs : s.halted = false) (h : m.fetch s.ip = .error e) :
    m.step s = ⟨s, .faulted ⟨e, s.ip, none⟩, []⟩ := by
  simp [Machine.step, hs, h]

theorem step_of_unknown (hs : s.halted = false) (h : m.fetch s.ip = .ok i) (hop : i.opcode? = none) :
    m.step s = ⟨s, .faulted ⟨.unknownOpcode i.id, s.ip, some i⟩, []⟩ := by
  simp [Machine.step, hs, h, hop]

/-! ### Instructions -/

namespace Parallel

theorem perform (h : Parallel excused m m' R) (kind : CallKind) (c : Invocation) :
    Lockstep excused R R Eq (m.perform kind c) (m'.perform kind c) := by
  refine Lockstep.get.bind fun s t hst => ?_
  have henter : Lockstep excused R R Eq (enter c.callee c.slots) (enter c.callee c.slots) :=
    .modify fun _ _ => h.entered c
  refine .ite (by rw [h.callDepth hst]) (fun _ => ?_) fun _ => ?_
  · exact henter.bind_eq fun _ => .pure rfl
  · refine h.saveCaller.bind_eq fun _ => ?_
    refine henter.bind_eq fun _ => ?_
    exact Lockstep.get.bind fun u v huv => .pure (by rw [h.callDepth huv])

theorem call (h : Parallel excused m m' R) (kind : CallKind) :
    Lockstep excused R R Eq (m.call kind) (m'.call kind) := by
  rw [call_eq, call_eq]
  exact h.prepare.bind_eq fun c => h.perform kind c

theorem ret (h : Parallel excused m m' R) : Lockstep excused R R Eq m.ret m'.ret := by
  refine h.pop.bind_eq fun v => ?_
  refine h.resume.bind_eq fun caller => ?_
  refine (h.push v).bind_eq fun _ => ?_
  exact Lockstep.get.bind fun s t hst => .pure (by rw [h.callDepth hst])

theorem execute (h : Parallel excused m m' R) (op : Opcode) :
    Lockstep excused R R Eq (m.execute op) (m'.execute op) := by
  by_cases hlit : op = .constant
  · subst hlit
    exact h.constant h.literal
  by_cases hret : op = .ret
  · subst hret
    exact h.ret.bind_eq fun _ => .pure rfl
  by_cases hcall : ∃ kind, op = .call kind
  · obtain ⟨kind, rfl⟩ := hcall
    exact (h.call kind).bind_eq fun _ => .pure rfl
  exact h.toRespects.execute hlit (fun kind hk => hcall ⟨kind, hk⟩) hret

/-! ### Steps -/

theorem step (h : Parallel excused m m' R) (hR : R s t) :
    (∃ f, (m.step s).status = .faulted f ∧ excused f.trap) ∨
      (m'.step t).status = (m.step s).status ∧ R (m.next s) (m'.next t) := by
  have hip := h.ip hR
  have hhalted := h.halted hR
  unfold next
  cases hs : s.halted with
  | true =>
    rw [step_of_halted hs, step_of_halted (hhalted.trans hs)]
    exact .inr ⟨rfl, hR⟩
  | false =>
    have ht := hhalted.trans hs
    rcases h.fetch s.ip with hfetch | ⟨e, he, hexcused⟩
    · rw [← hip] at hfetch
      cases hf : m.fetch t.ip with
      | error e =>
        rw [step_of_fetch_error hs (hip ▸ hf), step_of_fetch_error ht (hfetch.trans hf), hip]
        exact .inr ⟨rfl, hR⟩
      | ok i =>
        have hi := fetch_eq_ok.1 (hip ▸ hf)
        have hi' := fetch_eq_ok.1 (hfetch.trans hf)
        cases hop : i.opcode? with
        | none =>
          rw [step_of_unknown hs (hip ▸ hf) hop, step_of_unknown ht (hfetch.trans hf) hop, hip]
          exact .inr ⟨rfl, hR⟩
        | some op =>
          rw [step_of_opcode hs hi hop, step_of_opcode ht hi' hop]
          have hx := h.execute op _ _ (h.announced op hR)
          generalize m.execute op (Machine.announced op s) = x at hx ⊢
          generalize m'.execute op (Machine.announced op t) = y at hx ⊢
          cases hx with
          | ok _ huv => exact .inr ⟨by simp only [outcome, h.halted huv], huv⟩
          | error huv => exact .inr ⟨by simp only [outcome, hip], huv⟩
          | excused he => exact .inl ⟨_, rfl, he⟩
    · rw [step_of_fetch_error hs he]
      exact .inl ⟨_, rfl, hexcused⟩

/-- As long as no step meets an excused trap, the runs of the two machines have the same statuses and their
states stay related. -/
theorem after (h : Parallel excused m m' R) (hR : R s t) {n : Nat}
    (hspared : ∀ k < n, ∀ f, (m.step (m.after k s)).status = .faulted f → ¬excused f.trap) :
    (∀ k < n, (m'.step (m'.after k t)).status = (m.step (m.after k s)).status) ∧
      ∀ k ≤ n, R (m.after k s) (m'.after k t) := by
  have hstep : ∀ k < n, R (m.after k s) (m'.after k t) →
      (m'.step (m'.after k t)).status = (m.step (m.after k s)).status ∧
        R (m.after (k + 1) s) (m'.after (k + 1) t) := by
    intro k hk hst
    rw [after_succ', after_succ']
    rcases h.step hst with ⟨f, hf, he⟩ | hmatched
    · exact absurd he (hspared k hk f hf)
    · exact hmatched
  have hstates : ∀ k ≤ n, R (m.after k s) (m'.after k t) := by
    intro k hk
    induction k with
    | zero => exact hR
    | succ k ih => exact (hstep k hk (ih (Nat.le_of_succ_le hk))).2
  exact ⟨fun k hk => (hstep k hk (hstates k (Nat.le_of_lt hk))).1, hstates⟩

theorem simulates (h : Parallel excused m m' R) : Simulates excused m m' R where
  progress s t hst := by
    rcases h.step hst with ⟨f, hf, he⟩ | ⟨hstatus, hnext⟩
    · exact .excused hf he
    · cases hs : (m.step s).status with
      | running => exact .both hs (hstatus.trans hs) hnext
      | halted => exact .halted hs (hstatus.trans hs) hnext
      | faulted f => exact .faulted hs (hstatus.trans hs)
  depth _ _ hst := Nat.le_of_eq (h.callDepth hst)

end Parallel

end StackMachine.Machine
