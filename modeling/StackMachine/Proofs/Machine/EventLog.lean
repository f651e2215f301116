import StackMachine.Proofs.Machine.FrameEffect
import StackMachine.Proofs.Machine.Reporting

/-!
# The log of a run

A step that carries out an instruction reports it first, and then at most one thing more: a warning, a call or
a return (`reported`). What the step does to the saved frames and to the flag for the warning goes with it, so
that the calls and returns in a log add up to the call depth (`calls_eq_returns_add`), and the warning is there
just if the deprecated instruction has been met (`warnings_eq`). `log_faithful` puts it together, for as many
steps as may be, faults in between included.
-/

namespace StackMachine

namespace Event

def isCall : Event → Bool
  | .call .. => true
  | _ => false

def isReturn : Event → Bool
  | .ret .. => true
  | _ => false

def depth? : Event → Option Nat
  | .call _ _ depth | .ret _ depth => some depth
  | _ => none

end Event

namespace Machine

variable {m : Machine} {s t : State} {op : Opcode} {o : Outcome} {rest : List Event} {r : Option Event}
  {n : Nat}

def log (m : Machine) : Nat → List Event
  | 0 => []
  | n + 1 => m.log n ++ (m.step (m.after n .initial)).events

/-! ### One step -/

theorem due?_eq_some_iff : m.due? s = some op ↔ s.halted = false ∧ m.program.opcodeAt? s.ip = some op := by
  unfold due?
  cases s.halted <;> simp

theorem step_of_due?_eq_none (h : m.due? s = none) : (m.step s).state = s ∧ (m.step s).events = [] := by
  cases hs : s.halted with
  | true =>
    rw [step_of_halted hs]
    exact ⟨rfl, rfl⟩
  | false =>
    rw [due?, hs] at h
    obtain ⟨f, hf⟩ := step_of_opcodeAt?_eq_none hs h
    rw [hf]
    exact ⟨rfl, rfl⟩

theorem step_eq_of_ok (hdue : m.due? s = some op) (h : m.execute op (announced op s) = .ok r t) :
    m.step s = ⟨t, if t.halted then .halted else .running, (announce op s).2 ++ r.toList⟩ := by
  obtain ⟨hs, hop⟩ := due?_eq_some_iff.1 hdue
  obtain ⟨i, hi, hio⟩ := Program.opcodeAt?_eq_some_iff.1 hop
  rw [step_of_opcode hs hi hio, h]
  rfl

theorem step_eq_of_error {e : Trap} (hdue : m.due? s = some op)
    (h : m.execute op (announced op s) = .error e t) :
    ∃ f, m.step s = ⟨t, .faulted f, (announce op s).2⟩ := by
  obtain ⟨hs, hop⟩ := due?_eq_some_iff.1 hdue
  obtain ⟨i, hi, hio⟩ := Program.opcodeAt?_eq_some_iff.1 hop
  rw [step_of_opcode hs hi hio, h]
  exact ⟨_, rfl⟩

/-! ### What a step reports -/

/-- What a step from `s` that carries out `op` reports besides, and what it does along with it. -/
inductive Reported (s : State) (op : Opcode) (o : Outcome) : List Event → Prop
  | nothing : (op = .emptyArray → s.warned = true) →
    ¬(op = .call .tail ∧ s.calls ≠ .empty ∧ o.status = .running) → o.state.calls = s.calls →
    Reported s op o []
  | deprecated : op = .emptyArray → s.warned = false → o.state.calls = s.calls →
    Reported s op o [.deprecated s.ip]
  | called {kind : CallKind} (address arguments : Nat) : op = .call kind →
    (kind = .tail → s.calls = .empty) → o.state.callDepth = s.callDepth + 1 →
    Reported s op o [.call address arguments o.state.callDepth]
  | tailCalled (address arguments : Nat) : op = .call .tail → s.calls ≠ .empty → o.status = .running →
    o.state.calls = s.calls → Reported s op o [.tailCall address arguments]
  | returned (address : Nat) : op = .ret → s.callDepth = o.state.callDepth + 1 →
    Reported s op o [.ret address o.state.callDepth]

theorem reported_of_announce (hevents : o.events = (announce op s).2)
    (htail : ¬(op = .call .tail ∧ s.calls ≠ .empty ∧ o.status = .running)) (hcalls : o.state.calls = s.calls) :
    ∃ rest, o.events = .execute s.ip op s.stack.height :: rest ∧ Reported s op o rest := by
  refine ⟨_, hevents, ?_⟩
  split
  · next h =>
    rw [Bool.and_eq_true, beq_iff_eq, Bool.not_eq_true'] at h
    exact .deprecated h.1 h.2 hcalls
  · next h =>
    refine .nothing ?_ htail hcalls
    rintro rfl
    simpa using h

theorem reported_of_call {kind : CallKind} {e : Event} (hdue : m.due? s = some (.call kind))
    (h : m.call kind (announced (.call kind) s) = .ok e t) : Reported s (.call kind) (m.step s) [e] := by
  have hstep := step_eq_of_ok hdue (reported_eq_ok.2 ⟨e, rfl, h⟩)
  have hs := (due?_eq_some_iff.1 hdue).1
  have hend := callEnd m kind (announced (.call kind) s)
  rw [h] at hend
  cases hend with
  | tail hp hk hd =>
    subst hk
    rw [eq_of_prepare hp] at hstep hd
    rw [hstep]
    refine .tailCalled _ _ rfl ?_ (if_neg ?_) rfl
    · intro hempty
      exact hd (callDepth_eq_zero_iff.2 hempty)
    · exact ne_true_of_eq_false hs
  | saved hp hk _ =>
    rw [eq_of_prepare hp] at hstep hk ⊢
    rw [hstep]
    exact .called _ _ rfl (fun htail => callDepth_eq_zero_iff.1 (hk htail)) rfl

theorem reported_of_ret {e : Event} (hdue : m.due? s = some .ret)
    (h : m.ret (announced .ret s) = .ok e t) : Reported s .ret (m.step s) [e] := by
  have hstep := step_eq_of_ok hdue (reported_eq_ok.2 ⟨e, rfl, h⟩)
  have hend := retEnd m (announced .ret s)
  rw [h] at hend
  cases hend with
  | resumed _ hc _ =>
    rw [hstep]
    refine .returned _ rfl ?_
    rw [calls_announced] at hc
    rw [State.callDepth, hc]
    rfl

/-- Only a step after which the machine goes on changes the saved frames. -/
theorem calls_of_not_running (hfit : Fits m s) (h : (m.step s).status ≠ .running) :
    (m.step s).state.calls = s.calls := by
  cases hfit.callEffect with
  | same hcalls => exact hcalls
  | saved _ _ hrun _ | resumed _ hrun _ _ _ _ _ => exact absurd hrun h

theorem calls_of_other (hfit : Fits m s) (hdue : m.due? s = some op) (hcall : ∀ kind, op ≠ .call kind)
    (hret : op ≠ .ret) : (m.step s).state.calls = s.calls := by
  have hop := (due?_eq_some_iff.1 hdue).2
  cases hfit.callEffect with
  | same hcalls => exact hcalls
  | saved hop' _ _ _ => exact absurd (Option.some.inj (hop.symm.trans hop')) (hcall _)
  | resumed hop' _ _ _ _ _ _ => exact absurd (Option.some.inj (hop.symm.trans hop')) hret

theorem reported (hfit : Fits m s) (hdue : m.due? s = some op) : ∃ rest,
    (m.step s).events = .execute s.ip op s.stack.height :: rest ∧ Reported s op (m.step s) rest := by
  cases hx : m.execute op (announced op s) with
  | error e t =>
    -- a return that traps has not taken its frame off, as its value would fit in
    obtain ⟨f, hf⟩ := step_eq_of_error hdue hx
    refine reported_of_announce (by rw [hf]) ?_ (calls_of_not_running hfit ?_) <;> rw [hf] <;> simp
  | ok r t =>
    have hstep := step_eq_of_ok hdue hx
    by_cases hcall : ∃ kind, op = .call kind
    · obtain ⟨kind, rfl⟩ := hcall
      obtain ⟨e, rfl, he⟩ := reported_eq_ok.1 hx
      refine ⟨[e], ?_, reported_of_call hdue he⟩
      rw [hstep, announce_of_ne (by simp)]
      rfl
    by_cases hret : op = .ret
    · subst hret
      obtain ⟨e, rfl, he⟩ := reported_eq_ok.1 hx
      refine ⟨[e], ?_, reported_of_ret hdue he⟩
      rw [hstep, announce_of_ne (by simp)]
      rfl
    have hcall' : ∀ kind, op ≠ .call kind := fun kind h => hcall ⟨kind, h⟩
    obtain rfl : r = none := silent_execute hcall' hret _ _ _ hx
    refine reported_of_announce ?_ (fun h => hcall' _ h.1) (calls_of_other hfit hdue hcall' hret)
    rw [hstep]
    exact List.append_nil _

namespace Reported

theorem length_le (h : Reported s op o rest) : rest.length ≤ 1 := by
  cases h <;> simp

theorem level_ne_trace (h : Reported s op o rest) : ∀ e ∈ rest, e.level ≠ .trace := by
  cases h <;> simp [Event.level]

theorem depth_eq (h : Reported s op o rest) : ∀ e ∈ rest, ∀ d, e.depth? = some d → d = o.state.callDepth := by
  cases h <;> simp [Event.depth?]

theorem calls_add (h : Reported s op o rest) : rest.countP Event.isCall + s.callDepth =
    rest.countP Event.isReturn + o.state.callDepth := by
  cases h with
  | nothing _ _ hcalls | deprecated _ _ hcalls | tailCalled _ _ _ _ _ hcalls =>
    simp [Event.isCall, Event.isReturn, State.callDepth, hcalls]
  | called _ _ _ _ hdepth | returned _ _ hdepth =>
    simp [Event.isCall, Event.isReturn, hdepth, Nat.add_comm]

theorem tailCall_mem_iff (h : Reported s op o rest) : (∃ address arguments, .tailCall address arguments ∈ rest) ↔
    op = .call .tail ∧ s.calls ≠ .empty ∧ o.status = .running := by
  cases h with
  | nothing _ htail _ => simpa using htail
  | deprecated hop _ _ | returned _ hop _ => simp [hop]
  | called _ _ hop hkind _ =>
    subst hop
    simpa using fun hkind' hcalls => absurd (hkind hkind') hcalls
  | tailCalled address arguments hop hcalls hrun _ =>
    simp [hop, hcalls, hrun]

theorem warning_mem_iff (h : Reported s op o rest) (e : Event) : e ∈ rest ∧ e.level = .warn ↔
    e = .deprecated s.ip ∧ op = .emptyArray ∧ s.warned = false := by
  cases h with
  | nothing hwarned _ _ =>
    have hnot : ¬(op = .emptyArray ∧ s.warned = false) := fun ⟨hop, h⟩ => by simp [hwarned hop] at h
    simp [hnot]
  | deprecated hop hwarned _ =>
    have hfirst : op = .emptyArray ∧ s.warned = false := ⟨hop, hwarned⟩
    rw [List.mem_singleton, and_iff_left hfirst, and_iff_left_iff_imp]
    rintro rfl
    rfl
  | called _ _ hop _ _ | returned _ hop _ | tailCalled _ _ hop _ _ _ =>
    rw [List.mem_singleton, hop]
    simp only [reduceCtorEq, false_and, and_false, iff_false, not_and]
    rintro rfl
    simp [Event.level]

theorem warnings_add (h : Reported s op o rest) :
    rest.countP (·.level = .warn) + (if s.warned then 1 else 0) =
      if s.warned ∨ op = .emptyArray then 1 else 0 := by
  cases h with
  | nothing hwarned _ _ =>
    have hiff : s.warned ∨ op = .emptyArray ↔ s.warned := or_iff_left_of_imp hwarned
    simp [hiff]
  | deprecated hop hwarned _ => simp [hop, hwarned, Event.level]
  | called _ _ hop _ _ | returned _ hop _ | tailCalled _ _ hop _ _ _ => simp [hop, Event.level]

end Reported

/-! ### The flag for the warning -/

theorem keeps_warned (m : Machine) (b : Bool) : Keeps m fun s => s.warned = b where
  push _ _ h _ := h
  pop _ _ _ h _ := h
  drop _ _ h := h
  ip _ _ h := h
  assign _ _ _ _ h := h
  unload _ _ h := h
  halt _ h := h

theorem warned_execute (op : Opcode) (s : State) : (leaves (m.execute op s)).warned = s.warned := by
  by_cases hcall : ∃ kind, op = .call kind
  · obtain ⟨kind, rfl⟩ := hcall
    have hprep := (keeps_warned m s.warned).respects.prepare.leaves (s := s) rfl
    show (leaves ((m.call kind >>= fun e => pure (some e)) s)).warned = _
    rw [leaves_reported]
    have hend := callEnd m kind s
    generalize m.call kind s = r at hend ⊢
    cases hend with
    | unprepared hp | tail hp _ _ | saved hp _ _ | exceeded hp _ _ =>
      rw [hp] at hprep
      exact hprep
  by_cases hret : op = .ret
  · subst hret
    show (leaves ((m.ret >>= fun e => pure (some e)) s)).warned = _
    rw [leaves_reported]
    have hend := retEnd m s
    generalize m.ret s = r at hend ⊢
    cases hend <;> rfl
  exact (keeps_warned m s.warned).execute (fun kind h => hcall ⟨kind, h⟩) hret rfl

theorem warned_next : (m.next s).warned = true ↔ s.warned = true ∨ m.due? s = some .emptyArray := by
  cases hdue : m.due? s with
  | none =>
    rw [next, (step_of_due?_eq_none hdue).1]
    simp
  | some op =>
    obtain ⟨hs, hop⟩ := due?_eq_some_iff.1 hdue
    rw [next_of_opcode hs hop, warned_execute]
    simp [announced]

/-! ### The log of a run -/

theorem calls_add_step (hfit : Fits m s) : (m.step s).events.countP Event.isCall + s.callDepth =
    (m.step s).events.countP Event.isReturn + (m.next s).callDepth := by
  rw [next]
  cases hdue : m.due? s with
  | none =>
    obtain ⟨hstate, hevents⟩ := step_of_due?_eq_none hdue
    rw [hstate, hevents]
    rfl
  | some op =>
    obtain ⟨rest, hrest, h⟩ := reported hfit hdue
    rw [hrest]
    exact h.calls_add

theorem calls_eq_returns_add (m : Machine) (n : Nat) : (m.log n).countP Event.isCall =
    (m.log n).countP Event.isReturn + (m.after n .initial).callDepth := by
  induction n with
  | zero => rfl
  | succ n ih =>
    have hfit : Fits m (m.after n .initial) := Reachable.fits ⟨n, rfl⟩
    have hstep := calls_add_step hfit
    rw [log, List.countP_append, List.countP_append, after_succ']
    omega

theorem warned_after (m : Machine) (n : Nat) : (m.after n .initial).warned = true ↔
    ∃ k < n, m.due? (m.after k .initial) = some .emptyArray := by
  induction n with
  | zero => simp [State.initial]
  | succ n ih => rw [after_succ', warned_next, ih, Nat.exists_lt_succ_right]

theorem warnings_add_step (hfit : Fits m s) :
    (m.step s).events.countP (·.level = .warn) + (if s.warned then 1 else 0) =
      if (m.next s).warned then 1 else 0 := by
  rw [if_congr warned_next rfl rfl]
  cases hdue : m.due? s with
  | none =>
    rw [(step_of_due?_eq_none hdue).2]
    simp
  | some op =>
    obtain ⟨rest, hrest, h⟩ := reported hfit hdue
    rw [hrest, List.countP_cons_of_neg (by simp [Event.level]), h.warnings_add]
    simp

theorem warnings_eq (m : Machine) (n : Nat) : (m.log n).countP (·.level = .warn) =
    if (m.after n .initial).warned then 1 else 0 := by
  induction n with
  | zero => rfl
  | succ n ih =>
    have hfit : Fits m (m.after n .initial) := Reachable.fits ⟨n, rfl⟩
    rw [log, List.countP_append, ih, Nat.add_comm, after_succ', ← warnings_add_step hfit, Nat.add_comm]

/-- What the log of the first `n` steps and the events of the next one, from `s` to `o`, tell of the run. -/
structure Faithful (m : Machine) (n : Nat) (s : State) (o : Outcome) : Prop where
  /-- It makes no difference if events go into the log while the step is under way. -/
  asMade : Reporting.step m s = o
  trace : ∀ op, m.due? s = some op → ∃ rest, o.events = .execute s.ip op s.stack.height :: rest ∧
    rest.length ≤ 1 ∧ ∀ e ∈ rest, e.level ≠ .trace
  silence : m.due? s = none → o.events = []
  calls : (m.log n).countP Event.isCall = (m.log n).countP Event.isReturn + s.callDepth
  depth : ∀ e ∈ o.events, ∀ d, e.depth? = some d → d = o.state.callDepth
  tailCall : (∃ address arguments, .tailCall address arguments ∈ o.events) ↔
    m.due? s = some (.call .tail) ∧ s.calls ≠ .empty ∧ o.status = .running
  warning : ∀ e, e ∈ o.events ∧ e.level = .warn ↔ e = .deprecated s.ip ∧ m.due? s = some .emptyArray ∧
    ∀ k < n, m.due? (m.after k .initial) ≠ some .emptyArray
  warnings : (m.log n).countP (·.level = .warn) ≤ 1

/-- The log of a run is a faithful record of it. -/
theorem log_faithful (m : Machine) (n : Nat) :
    Faithful m n (m.after n .initial) (m.step (m.after n .initial)) := by
  have hfit : Fits m (m.after n .initial) := Reachable.fits ⟨n, rfl⟩
  have hwarned : (m.after n .initial).warned = false ↔
      ∀ k < n, m.due? (m.after k .initial) ≠ some .emptyArray := by
    rw [← Bool.not_eq_true, warned_after]
    simp
  have hcalls := calls_eq_returns_add m n
  have hwarnings : (m.log n).countP (·.level = .warn) ≤ 1 := by
    rw [warnings_eq]
    split <;> omega
  generalize m.after n .initial = s at *
  cases hdue : m.due? s with
  | none =>
    have hevents := (step_of_due?_eq_none hdue).2
    refine ⟨Reporting.step_eq hfit, ?_, fun _ => hevents, hcalls, ?_, ?_, ?_, hwarnings⟩ <;>
      simp [hevents, hdue]
  | some op =>
    obtain ⟨rest, hrest, h⟩ := reported hfit hdue
    refine ⟨Reporting.step_eq hfit, ?_, by simp [hdue], hcalls, ?_, ?_, ?_, hwarnings⟩
    · intro op' hop
      obtain rfl : op = op' := Option.some.inj (hdue.symm.trans hop)
      exact ⟨rest, hrest, h.length_le, h.level_ne_trace⟩
    · intro e he
      rw [hrest] at he
      rcases List.mem_cons.1 he with rfl | he
      · simp [Event.depth?]
      · exact h.depth_eq e he
    · rw [hrest, hdue, Option.some.injEq, ← h.tailCall_mem_iff]
      simp
    · intro e
      rw [hrest, hdue, Option.some.injEq, ← hwarned, ← h.warning_mem_iff e, List.mem_cons]
      constructor
      · rintro ⟨rfl | he, hlevel⟩
        · cases hlevel
        · exact ⟨he, hlevel⟩
      · rintro ⟨he, hlevel⟩
        exact ⟨.inr he, hlevel⟩

/-- The warning is given even if there is no room for the list. -/
example : ((⟨(Builder.empty.op .emptyArray).build, ⟨0, 1, 1⟩⟩ : Machine).step .initial).events =
    [.execute 0 .emptyArray 0, .deprecated 0] := by decide +kernel

end Machine

end StackMachine
