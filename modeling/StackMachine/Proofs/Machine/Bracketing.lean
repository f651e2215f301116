import StackMachine.Proofs.Machine.Calls
import StackMachine.Program.Builder

/-!
# Calls and returns are bracketed

A step leaves the saved frames alone, saves one more or takes the last one off (`callEffect`). So as long
as the depth stays above the one a call was made at, the frame that the call saved and those below it
stay where they are, whatever runs in between (`kept_below`), and the step that goes back to that depth is
the return that takes this frame off (`calls_bracketed`).

That a return always ends well rests on `Fits`: its value goes into room that it has just left.
-/

namespace StackMachine.Machine

variable {m : Machine} {s : State}

/-- The operand stack is within its capacity. -/
def Fits (m : Machine) (s : State) : Prop := s.stack.height ≤ m.limits.stackCapacity

theorem keeps_fits_and_calls (m : Machine) (calls : Stack CallFrame) :
    Keeps m fun s => Fits m s ∧ s.calls = calls where
  push s d hs hlt := ⟨hlt, hs.2⟩
  pop s d rest hs hr := ⟨by have := hs.1; simp only [Fits, hr, Stack.height_push] at this ⊢; omega, hs.2⟩
  drop s n hs := ⟨Nat.le_trans (Nat.sub_le _ n) hs.1, hs.2⟩
  ip _ _ hs := hs
  assign _ _ _ _ hs := hs
  unload _ _ hs := hs
  halt _ hs := hs

/-! ### One step -/

/-- What a step does with the saved frames. -/
inductive CallEffect (m : Machine) (s : State) : Prop
  | same : (m.next s).calls = s.calls → CallEffect m s
  | saved {kind : CallKind} : m.program.opcodeAt? s.ip = some (.call kind) →
    (kind = .tail → s.calls = .empty) → (m.step s).status = .running →
    (m.next s).calls = s.calls.push ⟨s.ip + 2, s.scope⟩ → CallEffect m s
  | resumed {f : CallFrame} {v : Datum} : m.program.opcodeAt? s.ip = some .ret →
    (m.step s).status = .running → s.calls = (m.next s).calls.push f →
    (m.next s).ip = f.returnAddress → (m.next s).scope = f.scope → (m.next s).stack = s.stack →
    s.stack.top? = some v → CallEffect m s

theorem calls_of_call {kind : CallKind} (hop : m.program.opcodeAt? s.ip = some (.call kind))
    (hk : kind = .tail → s.calls = .empty) (hrun : (m.step s).status = .running) :
    (m.next s).calls = s.calls.push ⟨s.ip + 2, s.scope⟩ := by
  have hs := not_halted_of_running hrun
  rw [next_of_call hs hop]
  obtain ⟨e, t, ht, -⟩ := (running_of_call hs hop).1 hrun
  have hend := callEnd m kind (announced (.call kind) s)
  rw [ht] at hend ⊢
  cases hend with
  | tail hp hkt hd =>
    rw [eq_of_prepare hp] at hd
    exact absurd (callDepth_eq_zero_iff.2 (hk hkt)) hd
  | saved hp _ _ =>
    rw [eq_of_prepare hp]
    rfl

theorem fits_and_effect_of_call {kind : CallKind} (hs : s.halted = false) (hfit : Fits m s)
    (hop : m.program.opcodeAt? s.ip = some (.call kind)) : Fits m (m.next s) ∧ CallEffect m s := by
  have hnext := next_of_call hs hop
  have hprep := (keeps_fits_and_calls m s.calls).respects.prepare.leaves (s := announced (.call kind) s)
    ⟨hfit, rfl⟩
  have hend := callEnd m kind (announced (.call kind) s)
  cases hr : m.call kind (announced (.call kind) s) with
  | error e t =>
    rw [hr] at hend hnext
    cases hend with
    | unprepared hp | exceeded hp _ _ =>
      rw [hp] at hprep
      exact ⟨hnext ▸ hprep.1, .same (hnext ▸ hprep.2)⟩
  | ok e t =>
    rw [hr] at hend hnext
    cases hend with
    | tail hp _ _ =>
      rw [hp] at hprep
      exact ⟨hnext ▸ hprep.1, .same (hnext ▸ hprep.2)⟩
    | saved hp hk _ =>
      rw [hp] at hprep
      rw [eq_of_prepare hp] at hk hr
      have hrun := (running_of_call hs hop).2 ⟨_, _, hr, hs⟩
      have hk' : kind = .tail → s.calls = .empty := by
        intro htail
        exact callDepth_eq_zero_iff.1 (hk htail)
      exact ⟨hnext ▸ hprep.1, .saved hop hk' hrun (calls_of_call hop hk' hrun)⟩

theorem fits_and_effect_of_ret (hs : s.halted = false) (hfit : Fits m s)
    (hop : m.program.opcodeAt? s.ip = some .ret) : Fits m (m.next s) ∧ CallEffect m s := by
  have hnext := next_of_ret hs hop
  have hend := retEnd m (announced .ret s)
  cases hr : m.ret (announced .ret s) with
  | error e t =>
    rw [hr] at hend hnext
    cases hend with
    | empty _ => exact ⟨hnext ▸ hfit, .same (hnext ▸ rfl)⟩
    | outside hst _ =>
      rw [stack_announced] at hst
      rw [Fits, hst, Stack.height_push] at hfit
      exact ⟨hnext ▸ Nat.le_of_succ_le hfit, .same (hnext ▸ rfl)⟩
    | overflow hst _ hle =>
      -- the capacity that the value has just fitted in cannot be used up without it
      rw [stack_announced] at hst
      rw [Fits, hst, Stack.height_push] at hfit
      omega
  | ok e t =>
    rw [hr] at hend hnext
    cases hend with
    | @resumed st v calls f hst hc _ =>
      have hrun := (running_of_ret hs hop).2 ⟨_, _, hr, hs⟩
      rw [stack_announced] at hst
      refine ⟨hnext ▸ hfit, .resumed (f := f) (v := v) hop hrun ?_ ?_ ?_ ?_ (by rw [hst]; rfl)⟩ <;>
        rw [hnext]
      · exact hc
      all_goals rfl

theorem fits_and_effect (hfit : Fits m s) : Fits m (m.next s) ∧ CallEffect m s := by
  have same (h : m.next s = s) : Fits m (m.next s) ∧ CallEffect m s :=
    ⟨h.symm ▸ hfit, .same (congrArg State.calls h)⟩
  cases hs : s.halted with
  | true => exact same (by rw [next, step_of_halted hs])
  | false =>
    cases hop : m.program.opcodeAt? s.ip with
    | none =>
      obtain ⟨f, hf⟩ := step_of_opcodeAt?_eq_none hs hop
      exact same (by rw [next, hf])
    | some op =>
      by_cases hcall : ∃ kind, op = .call kind
      · obtain ⟨kind, rfl⟩ := hcall
        exact fits_and_effect_of_call hs hfit hop
      by_cases hret : op = .ret
      · subst hret
        exact fits_and_effect_of_ret hs hfit hop
      have hcall' : ∀ kind, op ≠ .call kind := by
        intro kind h
        exact hcall ⟨kind, h⟩
      have hkeep := (keeps_fits_and_calls m s.calls).execute (s := announced op s) hcall' hret
        ⟨hfit, rfl⟩
      rw [← next_of_opcode hs hop] at hkeep
      exact ⟨hkeep.1, .same hkeep.2⟩

theorem Fits.next (hfit : Fits m s) : Fits m (m.next s) := (fits_and_effect hfit).1

theorem Fits.callEffect (hfit : Fits m s) : CallEffect m s := (fits_and_effect hfit).2

theorem Fits.after (hfit : Fits m s) (n : Nat) : Fits m (m.after n s) :=
  after_invariant (fun _ hfit => hfit.next) hfit n

/-- What steps keep while the stack fits, a run keeps. -/
theorem Fits.invariant {P : State → Prop} {t : State} (hfit : Fits m s)
    (step : ∀ u, Fits m u → P u → P (m.next u)) (start : P s) (h : m.ReachableFrom s t) : P t := by
  have hboth : ∀ u, Fits m u ∧ P u → Fits m (m.next u) ∧ P (m.next u) := fun u ⟨hfit, hu⟩ =>
    ⟨hfit.next, step u hfit hu⟩
  exact (h.invariant (P := fun u => Fits m u ∧ P u) ⟨hfit, start⟩ hboth).2

theorem fits_start (m : Machine) (store : Store) : Fits m (.start store) := Nat.zero_le _

theorem ReachableFrom.fits {store : Store} (h : m.ReachableFrom (.start store) s) : Fits m s :=
  h.invariant (fits_start m store) fun _ hfit => hfit.next

theorem Reachable.fits (h : m.Reachable s) : Fits m s := ReachableFrom.fits h

/-! ### Runs -/

/-- A step that adds to the call depth is a successful call, made in place of no caller. -/
theorem callDepth_lt_next_iff (hfit : Fits m s) :
    s.callDepth < (m.next s).callDepth ↔ (m.step s).status = .running ∧
      ∃ kind, m.program.opcodeAt? s.ip = some (.call kind) ∧ (kind = .tail → s.calls = .empty) := by
  constructor
  · intro h
    cases hfit.callEffect with
    | same hc => simp [State.callDepth, hc] at h
    | saved hop hk hrun _ => exact ⟨hrun, _, hop, hk⟩
    | resumed _ _ hc _ _ _ _ => simp only [State.callDepth, hc, Stack.height_push] at h; omega
  · rintro ⟨hrun, kind, hop, hk⟩
    simp [State.callDepth, calls_of_call hop hk hrun]

/-- The frame `f` is saved just above the frames `base`. -/
def SavedAbove (base : Stack CallFrame) (f : CallFrame) (s : State) : Prop :=
  ∃ inner, s.calls.items = inner ++ f :: base.items

variable {base : Stack CallFrame} {f : CallFrame} {t : State}

theorem SavedAbove.next (h : SavedAbove base f t) (hfit : Fits m t)
    (habove : base.height < (m.next t).callDepth) : SavedAbove base f (m.next t) := by
  obtain ⟨inner, hi⟩ := h
  cases hfit.callEffect with
  | same hc => exact ⟨inner, by rw [hc, hi]⟩
  | saved _ _ _ hc => exact ⟨⟨t.ip + 2, t.scope⟩ :: inner, by rw [hc, Stack.items_push, hi]; rfl⟩
  | resumed _ _ hc _ _ _ _ =>
    rw [hc, Stack.items_push] at hi
    cases inner with
    | nil =>
      -- the frame taken off would be `f` itself
      rw [State.callDepth, Stack.height_eq, Stack.height_eq, (List.cons.inj hi).2] at habove
      omega
    | cons g inner => exact ⟨inner, (List.cons.inj hi).2⟩

theorem kept_below (h : SavedAbove base f t) (hfit : Fits m t) {n : Nat}
    (habove : ∀ k ≤ n, base.height < (m.after k t).callDepth) : SavedAbove base f (m.after n t) := by
  induction n with
  | zero => exact h
  | succ n ih =>
    have hlast := habove (n + 1) (Nat.le_refl _)
    rw [after_succ'] at hlast ⊢
    have hbefore : ∀ k ≤ n, base.height < (m.after k t).callDepth := by
      intro k hk
      exact habove k (Nat.le_succ_of_le hk)
    exact (ih hbefore).next (hfit.after n) hlast

/-- The step from `s` is a return to the frame `f` and the frames `base`. -/
structure ReturnsTo (m : Machine) (f : CallFrame) (base : Stack CallFrame) (s : State) : Prop where
  opcode : m.program.opcodeAt? s.ip = some .ret
  status : (m.step s).status = .running
  ip : (m.next s).ip = f.returnAddress
  scope : (m.next s).scope = f.scope
  calls : (m.next s).calls = base
  value : ∃ v, s.stack.top? = some v ∧ (m.next s).stack.top? = some v

theorem SavedAbove.returnsTo (h : SavedAbove base f t) (hfit : Fits m t)
    (hback : ¬base.height < (m.next t).callDepth) : ReturnsTo m f base t := by
  obtain ⟨inner, hi⟩ := h
  have hlen := congrArg List.length hi
  rw [← Stack.height_eq, List.length_append, List.length_cons, ← Stack.height_eq] at hlen
  cases hfit.callEffect with
  | same hc => rw [State.callDepth, hc] at hback; omega
  | saved _ _ _ hc => rw [State.callDepth, hc, Stack.height_push] at hback; omega
  | resumed hop hrun hc hip hscope hstack hv =>
    have hinner : inner = [] := by
      rw [hc, Stack.height_push] at hlen
      rw [State.callDepth] at hback
      exact List.eq_nil_of_length_eq_zero (by omega)
    rw [hinner, hc, Stack.items_push, List.nil_append] at hi
    obtain ⟨rfl, hbase⟩ := List.cons.inj hi
    exact ⟨hop, hrun, hip, hscope, Stack.ext hbase, _, hv, hstack ▸ hv⟩

/-- The step from `s` adds to the call depth just if it is a call that keeps its caller. While the depth
stays above that of `s` the frame of the caller is kept, and the step that ends this is a return to it. -/
theorem calls_bracketed {store : Store} (hs : m.ReachableFrom (.start store) s) :
    (s.callDepth < (m.next s).callDepth ↔ (m.step s).status = .running ∧
      ∃ kind, m.program.opcodeAt? s.ip = some (.call kind) ∧ (kind = .tail → s.calls = .empty)) ∧
    (s.callDepth < (m.next s).callDepth →
      (m.next s).calls = s.calls.push ⟨s.ip + 2, s.scope⟩ ∧
      ∀ n, (∀ k ≤ n, s.callDepth < (m.after k (m.next s)).callDepth) →
        SavedAbove s.calls ⟨s.ip + 2, s.scope⟩ (m.after n (m.next s)) ∧
        (¬s.callDepth < (m.after (n + 1) (m.next s)).callDepth →
          ReturnsTo m ⟨s.ip + 2, s.scope⟩ s.calls (m.after n (m.next s)))) := by
  have hiff := callDepth_lt_next_iff hs.fits
  refine ⟨hiff, ?_⟩
  intro hcall
  obtain ⟨hrun, kind, hop, hk⟩ := hiff.1 hcall
  have hpush := calls_of_call hop hk hrun
  have hnext := hs.fits.next
  refine ⟨hpush, ?_⟩
  intro n habove
  have hfirst : SavedAbove s.calls ⟨s.ip + 2, s.scope⟩ (m.next s) := ⟨[], by rw [hpush]; rfl⟩
  have hkept := kept_below hfirst hnext habove
  refine ⟨hkept, ?_⟩
  intro hback
  rw [after_succ'] at hback
  exact hkept.returnsTo (hnext.after n) hback

/-- The function at `2` over a frame of its own, called from `22`, calls the one at `12`. -/
def nestedCalls : Machine where
  program := (((((((((((Builder.empty.opWith .jump 20).functionHeader 0 false).opWith .function 12).opWith
    (.call .plain) 0).op .ret).functionHeader 0 false).constant (.integer 7)).op .ret).constant
    (.function ⟨2, 1⟩)).opWith (.call .plain) 0).op .halt).build
  limits := .standard

theorem calls_bracketed_nestedCalls :
    ∃ s, nestedCalls.ReachableFrom (.start Store.empty.addRoot.addRoot) s ∧
      s.callDepth < (nestedCalls.next s).callDepth ∧
      (∀ k ≤ 4, s.callDepth < (nestedCalls.after k (nestedCalls.next s)).callDepth) ∧
      ¬s.callDepth < (nestedCalls.after 5 (nestedCalls.next s)).callDepth ∧
      SavedAbove s.calls ⟨24, globalScope⟩ (nestedCalls.after 4 (nestedCalls.next s)) ∧
      ReturnsTo nestedCalls ⟨24, globalScope⟩ s.calls (nestedCalls.after 4 (nestedCalls.next s)) := by
  let s := nestedCalls.after 2 (.start Store.empty.addRoot.addRoot)
  have hs : nestedCalls.ReachableFrom (.start Store.empty.addRoot.addRoot) s := ⟨2, rfl⟩
  have hcall : s.callDepth < (nestedCalls.next s).callDepth := by decide +kernel
  have habove : ∀ k ≤ 4, s.callDepth < (nestedCalls.after k (nestedCalls.next s)).callDepth := by
    decide +kernel
  have hback : ¬s.callDepth < (nestedCalls.after 5 (nestedCalls.next s)).callDepth := by
    decide +kernel
  obtain ⟨hkept, hret⟩ := ((calls_bracketed hs).2 hcall).2 4 habove
  exact ⟨s, hs, hcall, habove, hback, hkept, hret hback⟩

end StackMachine.Machine
