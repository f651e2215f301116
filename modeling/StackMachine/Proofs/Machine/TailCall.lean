import Mathlib.Data.Set.Basic
import StackMachine.Program.Builder
import StackMachine.Proofs.Machine.Simulation

/-!
# Tail calls

A call in front of a return may be made in place of its caller. `tailCalls A` turns the calls at the
addresses `A` into such calls. Wherever the program halts, the changed one halts with the same data and
frames, no later and no deeper in calls; and wherever the changed program halts, the program does so too,
or is stopped by the limit on calls (`tailCalls_refines`).

The saved frames of the two runs differ by frames that lead to one of the returns (`Collapsed`). Such a
frame is taken off by a return that leads to a return, while the changed program waits in front of its
own (`Returning`).
-/

namespace StackMachine

def Datum.asTailCall : Datum → Datum
  | .instruction i => .instruction { i with id := CallKind.tail.id }
  | d => d

namespace Program

/-- The program with the instructions at the addresses `A` turned into tail calls. -/
def tailCalls (p : Program) (A : Set Nat) [DecidablePred (· ∈ A)] : Program :=
  ⟨p.code.mapIdx fun a d => if a ∈ A then d.asTailCall else d⟩

/-- At the addresses `A` stand calls with a return behind their operand. None of them is the literal of
an instruction that pushes one. -/
structure TailPositions (p : Program) (A : Set Nat) : Prop where
  call : ∀ a ∈ A, ∃ kind, p.opcodeAt? a = some (.call kind) ∧ kind ≠ .tail
  ret : ∀ a ∈ A, p.opcodeAt? (a + 2) = some .ret
  literal : ∀ a, a + 1 ∈ A → p.opcodeAt? a ≠ some .constant

variable {p : Program} {A : Set Nat} [DecidablePred (· ∈ A)] {a : Nat}

theorem get?_tailCalls :
    (p.tailCalls A).get? a = if a ∈ A then (p.get? a).map Datum.asTailCall else p.get? a := by
  simp only [get?, tailCalls, Array.getElem?_mapIdx]
  split
  · rfl
  · exact Option.map_id'

theorem get?_tailCalls_of_notMem (ha : a ∉ A) : (p.tailCalls A).get? a = p.get? a := by
  rw [get?_tailCalls, if_neg ha]

theorem opcodeAt?_tailCalls_of_notMem (ha : a ∉ A) :
    (p.tailCalls A).opcodeAt? a = p.opcodeAt? a := by
  rw [opcodeAt?, get?_tailCalls_of_notMem ha]; rfl

namespace TailPositions

theorem exists_instruction (h : p.TailPositions A) (ha : a ∈ A) :
    ∃ i j, p.get? a = some (.instruction i) ∧ (p.tailCalls A).get? a = some (.instruction j) ∧
      j.opcode? = some (.call .tail) := by
  obtain ⟨kind, hop, -⟩ := h.call a ha
  obtain ⟨i, hi, -⟩ := opcodeAt?_eq_some_iff.1 hop
  refine ⟨i, { i with id := CallKind.tail.id }, hi, ?_, Opcode.ofId?_id (.call .tail)⟩
  rw [get?_tailCalls, if_pos ha, hi]
  rfl

theorem opcodeAt?_tailCalls (h : p.TailPositions A) (ha : a ∈ A) :
    (p.tailCalls A).opcodeAt? a = some (.call .tail) := by
  obtain ⟨i, j, -, hj, hop⟩ := h.exists_instruction ha
  exact opcodeAt?_eq_some_iff.2 ⟨j, hj, hop⟩

/-- The two programs differ in instructions alone. -/
theorem get?_tailCalls_eq_or (h : p.TailPositions A) (a : Nat) :
    (p.tailCalls A).get? a = p.get? a ∨
      ∃ i j, p.get? a = some (.instruction i) ∧ (p.tailCalls A).get? a = some (.instruction j) := by
  by_cases ha : a ∈ A
  · obtain ⟨i, j, hi, hj, -⟩ := h.exists_instruction ha
    exact .inr ⟨i, j, hi, hj⟩
  · exact .inl (get?_tailCalls_of_notMem ha)

theorem signature?_tailCalls (h : p.TailPositions A) (a : Nat) :
    (p.tailCalls A).signature? a = p.signature? a := by
  unfold signature?
  rcases h.get?_tailCalls_eq_or (a + parametersOffset) with h2 | ⟨i, j, hi, hj⟩
  · rcases h.get?_tailCalls_eq_or (a + variadicOffset) with h3 | ⟨i, j, hi, hj⟩
    · rw [h2, h3]
    · rw [h2, hi, hj]
      cases p.get? (a + parametersOffset) with
      | none => rfl
      | some d => cases d <;> rfl
  · rw [hi, hj]

end TailPositions

end Program

namespace Machine

/-! ### Saved frames -/

/-- The frames on the right are those on the left without some that lead behind a call in `A`. The
outermost frame stays. -/
inductive Collapsed (A : Set Nat) : List CallFrame → List CallFrame → Prop
  | nil : Collapsed A [] []
  | keep {f : CallFrame} {K K' : List CallFrame} : Collapsed A K K' → Collapsed A (f :: K) (f :: K')
  | drop {a : Nat} {c : FrameId} {K K' : List CallFrame} : a ∈ A → K' ≠ [] → Collapsed A K K' →
    Collapsed A (⟨a + 2, c⟩ :: K) K'

variable {A : Set Nat}

theorem Collapsed.length_le {K K' : List CallFrame} (h : Collapsed A K K') : K'.length ≤ K.length := by
  induction h with
  | nil => exact Nat.le_refl _
  | keep _ ih => exact Nat.succ_le_succ ih
  | drop _ _ _ ih => exact Nat.le_succ_of_le ih

theorem Collapsed.eq_nil_iff {K K' : List CallFrame} (h : Collapsed A K K') : K = [] ↔ K' = [] := by
  cases h with
  | nil => exact Iff.rfl
  | keep _ => simp
  | drop _ hne _ => simp [hne]

variable {s t : State}

theorem Collapsed.callDepth_eq_zero_iff (h : Collapsed A s.calls.items t.calls.items) :
    s.callDepth = 0 ↔ t.callDepth = 0 := by
  rw [State.callDepth, State.callDepth, Stack.height_eq, Stack.height_eq, List.length_eq_zero_iff,
    List.length_eq_zero_iff]
  exact h.eq_nil_iff

theorem Collapsed.callDepth_le (h : Collapsed A s.calls.items t.calls.items) :
    t.callDepth ≤ s.callDepth := by
  rw [State.callDepth, State.callDepth, Stack.height_eq, Stack.height_eq]
  exact h.length_le

/-- The states differ in their saved frames alone. -/
def Aligned (A : Set Nat) (s t : State) : Prop :=
  ∃ calls, Collapsed A s.calls.items calls.items ∧ t = { s with calls := calls }

/-- Both states are in front of a return, and apart from this they differ in their scopes and saved
frames alone. -/
structure Returning (A : Set Nat) (m m' : Machine) (s t : State) : Prop where
  here : m.program.opcodeAt? s.ip = some .ret
  there : m'.program.opcodeAt? t.ip = some .ret
  stack : t.stack = s.stack
  store : t.store = s.store
  here_halted : s.halted = false
  there_halted : t.halted = false
  warned : t.warned = s.warned
  calls : Collapsed A s.calls.items t.calls.items

def Matched (A : Set Nat) (m m' : Machine) (s t : State) : Prop :=
  Aligned A s t ∨ Returning A m m' s t

theorem Matched.calls {m m' : Machine} (h : Matched A m m' s t) :
    Collapsed A s.calls.items t.calls.items := by
  rcases h with ⟨calls, hc, rfl⟩ | h
  · exact hc
  · exact h.calls

theorem Matched.stack_and_store {m m' : Machine} (h : Matched A m m' s t) :
    t.stack = s.stack ∧ t.store = s.store := by
  rcases h with ⟨calls, -, rfl⟩ | h
  · exact ⟨rfl, rfl⟩
  · exact ⟨h.stack, h.store⟩

/-! ### Steps -/

theorem aligned_announced {op op' : Opcode} (hst : Aligned A s t)
    (h : (op == .emptyArray) = (op' == .emptyArray)) : Aligned A (announced op s) (announced op' t) := by
  obtain ⟨calls, hc, rfl⟩ := hst
  exact ⟨calls, hc, by simp only [announced, h]⟩

/-- The one trap that the changed program may be spared. -/
def TooDeep (limits : Limits) (e : Trap) : Prop := e = .callDepthExceeded limits.maxCallDepth

/-- A tail call in place of another call drops the frame that the other one saves, or saves the same one if
there is no caller. -/
theorem aligned_perform (m m' : Machine) (hm : m'.limits = m.limits) {kind kind' : CallKind}
    (c : Invocation) (hst : Aligned A s t)
    (hk : kind' = kind ∨ kind ≠ .tail ∧ kind' = .tail ∧ ∃ a ∈ A, s.ip = a + 2) :
    Alike (TooDeep m.limits) (Aligned A) (fun _ _ => True) (m.perform kind c s) (m'.perform kind' c t) := by
  obtain ⟨calls, hc, rfl⟩ := hst
  have hzero := Collapsed.callDepth_eq_zero_iff (t := { s with calls := calls }) hc
  have hle := Collapsed.callDepth_le (t := { s with calls := calls }) hc
  by_cases hin : kind = .tail ∧ s.callDepth ≠ 0
  · -- in place of a caller on both sides
    obtain ⟨rfl, hd⟩ := hin
    obtain rfl : kind' = .tail := hk.elim id fun h => h.2.1
    rw [perform_of_tail hd, perform_of_tail fun h => hd (hzero.2 h)]
    exact .ok trivial ⟨calls, hc, rfl⟩
  have hout : kind = .tail → s.callDepth = 0 := by
    intro htail
    by_contra hd
    exact hin ⟨htail, hd⟩
  rcases Nat.lt_or_ge s.callDepth m.limits.maxCallDepth with hlt | hge
  · rw [perform_of_lt hout hlt]
    by_cases hin' : kind' = .tail ∧ State.callDepth { s with calls := calls } ≠ 0
    · -- in place of a caller on the right only
      obtain ⟨rfl, hd⟩ := hin'
      rw [perform_of_tail hd]
      rcases hk with rfl | ⟨-, -, a, ha, hip⟩
      · exact absurd (hzero.1 (hout rfl)) hd
      refine .ok trivial ⟨calls, ?_, rfl⟩
      show Collapsed A (⟨s.ip, s.scope⟩ :: s.calls.items) calls.items
      rw [hip]
      refine .drop ha (fun hnil => hd ?_) hc
      exact hzero.1 (by rw [State.callDepth, Stack.height_eq, hc.eq_nil_iff.2 hnil]; rfl)
    · have hout' : kind' = .tail → State.callDepth { s with calls := calls } = 0 := by
        intro htail
        by_contra hd
        exact hin' ⟨htail, hd⟩
      rw [perform_of_lt hout' (hm ▸ Nat.lt_of_le_of_lt hle hlt)]
      exact .ok trivial ⟨calls.push ⟨s.ip, s.scope⟩, hc.keep, rfl⟩
  · rw [perform_of_le hout hge]
    exact .excused rfl

section

variable [DecidablePred (· ∈ A)] {p : Program} {limits : Limits}

theorem aligned_operand (h : p.TailPositions A) :
    Lockstep (TooDeep limits) (Aligned A) (Aligned A) (fun d d' => d = d' ∨ ∃ i j, d = .instruction i ∧
      d' = .instruction j) (Machine.mk p limits).operand (Machine.mk (p.tailCalls A) limits).operand := by
  rintro s _ ⟨calls, hc, rfl⟩
  unfold operand
  dsimp only
  rcases h.get?_tailCalls_eq_or s.ip with heq | ⟨i, j, hi, hj⟩
  · rw [heq]
    cases p.get? s.ip with
    | none => exact .error ⟨calls, hc, rfl⟩
    | some d => exact .ok (.inl rfl) ⟨calls, hc, rfl⟩
  · rw [hi, hj]
    exact .ok (.inr ⟨i, j, rfl, rfl⟩) ⟨calls, hc, rfl⟩

theorem aligned_respects (h : p.TailPositions A) :
    Respects (TooDeep limits) ⟨p, limits⟩ ⟨p.tailCalls A, limits⟩ (Aligned A) where
  scope := by rintro s _ ⟨calls, -, rfl⟩; rfl
  store := by rintro s _ ⟨calls, -, rfl⟩; rfl
  push d := by
    rintro s _ ⟨calls, hc, rfl⟩
    unfold push
    split
    · exact .ok rfl ⟨calls, hc, rfl⟩
    · exact .error ⟨calls, hc, rfl⟩
  pop := by
    rintro s _ ⟨calls, hc, rfl⟩
    unfold pop
    dsimp only
    split
    · exact .ok rfl ⟨calls, hc, rfl⟩
    · exact .error ⟨calls, hc, rfl⟩
  top := by
    rintro s _ ⟨calls, hc, rfl⟩
    unfold top
    dsimp only
    split
    · exact .ok rfl ⟨calls, hc, rfl⟩
    · exact .error ⟨calls, hc, rfl⟩
  popArguments n := by
    rintro s _ ⟨calls, hc, rfl⟩
    unfold popArguments
    dsimp only
    split
    · exact .ok rfl ⟨calls, hc, rfl⟩
    · exact .error ⟨calls, hc, rfl⟩
  operand := (aligned_operand h).mono (fun _ _ hst => hst) fun _ _ _ => trivial
  index := by
    refine (aligned_operand h).bind fun d d' hd => ?_
    rcases hd with rfl | ⟨i, j, rfl, rfl⟩
    · exact (Lockstep.asInteger d).bind_eq fun n => .ite Iff.rfl (fun _ => .pure rfl) fun _ => .throw _
    · exact (Lockstep.throw (V := Eq (α := Int64)) _).bind_eq fun n =>
        .ite Iff.rfl (fun _ => .pure rfl) fun _ => .throw _
  slotIndex n := by
    refine .ite Iff.rfl (fun hn => .pure ⟨rfl, ?_⟩) fun _ => .throw _
    have := hn.2
    dsimp only at this ⊢
    omega
  header a := by
    unfold header
    rw [h.signature?_tailCalls a]
    cases p.signature? a with
    | none => exact .throw _
    | some sig => exact .pure rfl
  jump a := .modify fun s t ⟨calls, hc, ht⟩ => ⟨calls, hc, by rw [ht]⟩
  assign i v s t _ := fun ⟨calls, hc, ht⟩ => ⟨calls, hc, by rw [ht]⟩
  unload i s t := fun ⟨calls, hc, ht⟩ => ⟨calls, hc, by rw [ht]⟩
  halt s t := fun ⟨calls, hc, ht⟩ => ⟨calls, hc, by rw [ht]⟩

theorem aligned_literal :
    Lockstep (TooDeep limits) (fun s t => Aligned A s t ∧ s.ip ∉ A) (Aligned A) Eq
      (Machine.mk p limits).operand (Machine.mk (p.tailCalls A) limits).operand := by
  rintro s _ ⟨⟨calls, hc, rfl⟩, hip⟩
  unfold operand
  dsimp only
  rw [Program.get?_tailCalls_of_notMem hip]
  cases p.get? s.ip with
  | none => exact .error ⟨calls, hc, rfl⟩
  | some d => exact .ok rfl ⟨calls, hc, rfl⟩

theorem aligned_call (h : p.TailPositions A) {kind kind' : CallKind} (hst : Aligned A s t)
    (hk : kind' = kind ∨ kind ≠ .tail ∧ kind' = .tail ∧ ∃ a ∈ A, s.ip = a + 1) :
    Alike (TooDeep limits) (Aligned A) (fun _ _ => True) ((Machine.mk p limits).call kind s)
      ((Machine.mk (p.tailCalls A) limits).call kind' t) := by
  have hprep : Alike (TooDeep limits) (Aligned A) Eq ((Machine.mk p limits).prepare s)
      ((Machine.mk (p.tailCalls A) limits).prepare t) := (aligned_respects h).prepare s t hst
  rw [call_eq, call_eq]
  simp only [Bind.bind, EStateM.bind]
  generalize hx : (Machine.mk p limits).prepare s = x at hprep
  generalize (Machine.mk (p.tailCalls A) limits).prepare t = y at hprep
  cases hprep with
  | @ok c _ u v hc huv =>
    obtain rfl := hc
    refine aligned_perform ⟨p, limits⟩ ⟨p.tailCalls A, limits⟩ rfl c huv
      (hk.imp_right fun ⟨hne, hkt, a, ha, hip⟩ => ⟨hne, hkt, a, ha, ?_⟩)
    rw [eq_of_prepare hx]
    exact congrArg (· + 1) hip
  | error huv => exact .error huv
  | excused he => exact .excused he

theorem Alike.reported {excused : Trap → Prop} {R : State → State → Prop} {x y : Action Event}
    (h : Alike excused R (fun _ _ => True) (x s) (y t)) :
    Alike excused R (fun _ _ => True) ((x >>= fun e => pure (some e)) s)
      ((y >>= fun e => pure (some e)) t) := by
  simp only [Bind.bind, EStateM.bind]
  generalize x s = r at h
  generalize y t = r' at h
  cases h with
  | ok _ huv => exact .ok trivial huv
  | error huv => exact .error huv
  | excused he => exact .excused he

/-- In front of a return on both sides, a frame that the changed program never saved is taken off alone. -/
theorem Returning.progress (h : p.TailPositions A)
    (hst : Returning A ⟨p, limits⟩ ⟨p.tailCalls A, limits⟩ s t) :
    Progress (TooDeep limits) ⟨p, limits⟩ ⟨p.tailCalls A, limits⟩
      (Matched A ⟨p, limits⟩ ⟨p.tailCalls A, limits⟩) s t := by
  have hend := retEnd ⟨p, limits⟩ (announced .ret s)
  have faulted {e e' : Trap} {u v : State} (hx : ret ⟨p, limits⟩ (announced .ret s) = .error e u)
      (hy : ret ⟨p.tailCalls A, limits⟩ (announced .ret t) = .error e' v) :
      Progress (TooDeep limits) ⟨p, limits⟩ ⟨p.tailCalls A, limits⟩
        (Matched A ⟨p, limits⟩ ⟨p.tailCalls A, limits⟩) s t := by
    obtain ⟨i, hi⟩ := faulted_of_ret hst.here_halted hst.here hx
    obtain ⟨j, hj⟩ := faulted_of_ret hst.there_halted hst.there hy
    exact .faulted hi hj
  cases hx : ret ⟨p, limits⟩ (announced .ret s) with
  | error e u =>
    rw [hx] at hend
    cases hend with
    | empty hs =>
      have ht : (announced .ret t).stack = .empty := hst.stack.trans hs
      exact faulted hx (ret_of_empty ht)
    | outside hs hc =>
      have ht : (announced .ret t).stack = _ := hst.stack.trans hs
      have hc' : (announced .ret t).calls = .empty :=
        callDepth_eq_zero_iff.1 (hst.calls.callDepth_eq_zero_iff.1 (callDepth_eq_zero_iff.2 hc))
      exact faulted hx (ret_outside ht hc')
    | overflow hs hc hle =>
      have ht : (announced .ret t).stack = _ := hst.stack.trans hs
      rcases t.calls.eq_empty_or_eq_push with hc' | ⟨calls', f', hc'⟩
      · have hzero := hst.calls.callDepth_eq_zero_iff.2 (callDepth_eq_zero_iff.2 hc')
        exact absurd (hc.symm.trans (callDepth_eq_zero_iff.1 hzero)) (Stack.push_ne_empty _ _)
      · exact faulted hx (ret_of_le ht hc' hle)
  | ok e u =>
    rw [hx] at hend
    cases hend with
    | @resumed st v calls f hs hc hlt =>
      have ht : (announced .ret t).stack = st.push v := hst.stack.trans hs
      have hrun := (running_of_ret hst.here_halted hst.here).2 ⟨_, _, hx, hst.here_halted⟩
      have hnext : next ⟨p, limits⟩ s =
          { announced .ret s with ip := f.returnAddress, scope := f.scope, calls := calls } := by
        rw [next_of_ret hst.here_halted hst.here, hx]; rfl
      have hcalls := hst.calls
      rw [show s.calls = calls.push f from hc, Stack.items_push] at hcalls
      generalize hK' : t.calls.items = K' at hcalls
      cases hcalls with
      | @keep f K K' hcol =>
        obtain ⟨calls', hc', rfl⟩ := Stack.exists_eq_push hK'
        have hy := ret_of_push (m := ⟨p.tailCalls A, limits⟩) (s := announced .ret t) ht hc' hlt
        have hrun' := (running_of_ret hst.there_halted hst.there).2 ⟨_, _, hy, hst.there_halted⟩
        refine .both hrun hrun' (.inl ⟨calls', hnext ▸ hcol, ?_⟩)
        rw [next_of_ret hst.there_halted hst.there, hy, hnext]
        simp only [leaves, announced, hst.stack, hst.store, hst.warned, hst.here_halted,
          hst.there_halted]
      | @drop a c K K' ha hne hcol =>
        -- the frame of a tail call: its return is next
        refine .alone hrun ?_ (.inr ?_)
        · rw [hnext, State.callDepth, State.callDepth, show s.calls = calls.push _ from hc]
          exact Nat.lt_succ_self _
        · rw [hnext]
          exact ⟨h.ret a ha, hst.there, hst.stack, hst.store, hst.here_halted, hst.there_halted,
            hst.warned.trans (warned_announced (by decide)).symm, hK' ▸ hcol⟩

theorem Aligned.progress (h : p.TailPositions A) (hst : Aligned A s t) :
    Progress (TooDeep limits) ⟨p, limits⟩ ⟨p.tailCalls A, limits⟩
      (Matched A ⟨p, limits⟩ ⟨p.tailCalls A, limits⟩) s t := by
  have hhalted : ∀ u v, Aligned A u v → u.halted = v.halted := by rintro u _ ⟨_, -, rfl⟩; rfl
  have hip : t.ip = s.ip := by obtain ⟨_, -, rfl⟩ := hst; rfl
  have ht := hhalted s t hst
  cases hs : s.halted with
  | true =>
    rw [hs] at ht
    refine .halted (by rw [step_of_halted hs]) (by rw [step_of_halted ht.symm]) (.inl ?_)
    rw [next, next, step_of_halted hs, step_of_halted ht.symm]
    exact hst
  | false =>
    rw [hs] at ht
    by_cases hA : s.ip ∈ A
    · -- a call turned into a tail call
      obtain ⟨kind, hop, hne⟩ := h.call s.ip hA
      have hop' : (p.tailCalls A).opcodeAt? t.ip = some (.call .tail) := hip ▸ h.opcodeAt?_tailCalls hA
      refine (Progress.of_alike (V := fun _ _ => True) hs ht.symm hop hop' hhalted ?_).mono
        fun _ _ => .inl
      exact (aligned_call h (aligned_announced hst (by simp))
        (.inr ⟨hne, rfl, s.ip, hA, rfl⟩)).reported
    have hop' : (p.tailCalls A).opcodeAt? t.ip = p.opcodeAt? s.ip := by
      rw [hip, Program.opcodeAt?_tailCalls_of_notMem hA]
    cases hop : p.opcodeAt? s.ip with
    | none =>
      obtain ⟨f, hf⟩ := step_of_opcodeAt?_eq_none (m := ⟨p, limits⟩) hs hop
      obtain ⟨f', hf'⟩ := step_of_opcodeAt?_eq_none (m := ⟨p.tailCalls A, limits⟩) ht.symm (hop'.trans hop)
      exact .faulted (by rw [hf]) (by rw [hf'])
    | some op =>
      rw [hop] at hop'
      by_cases hret : op = .ret
      · subst hret
        obtain ⟨calls, hc, rfl⟩ := hst
        exact Returning.progress h ⟨hop, hop', rfl, rfl, hs, ht.symm, rfl, hc⟩
      have hann : Aligned A (announced op s) (announced op t) := aligned_announced hst rfl
      refine (Progress.of_alike (V := fun _ _ => True) hs ht.symm hop hop' hhalted ?_).mono
        fun _ _ => .inl
      by_cases hcall : ∃ kind, op = .call kind
      · obtain ⟨kind, rfl⟩ := hcall
        exact (aligned_call h hann (.inl rfl)).reported
      by_cases hlit : op = .constant
      · subst hlit
        have hnot : s.ip + 1 ∉ A := fun hmem => h.literal s.ip hmem hop
        exact ((aligned_respects h).constant aligned_literal).mono (fun _ _ hP => hP)
          (fun _ _ _ => trivial) _ _ ⟨hann, hnot⟩
      · exact ((aligned_respects h).execute hlit (fun kind hk => hcall ⟨kind, hk⟩) hret).mono
          (fun _ _ hP => hP) (fun _ _ _ => trivial) _ _ hann

theorem simulates_tailCalls (h : p.TailPositions A) (limits : Limits) :
    Simulates (TooDeep limits) ⟨p, limits⟩ ⟨p.tailCalls A, limits⟩
      (Matched A ⟨p, limits⟩ ⟨p.tailCalls A, limits⟩) where
  progress _ _ hst := hst.elim (fun hst => hst.progress h) fun hst => hst.progress h
  depth _ _ hst := hst.calls.callDepth_le

end

/-- A program and the same with tail calls: the second halts wherever the first does, in no more steps and
no deeper in calls. Where the second halts, the first halts too, or exceeds the call depth. -/
theorem tailCalls_refines (p : Program) (A : Set Nat) [DecidablePred (· ∈ A)] (limits : Limits)
    (store : Store) (h : p.TailPositions A) :
    (∀ n s, (Machine.mk p limits).run n (.start store) = (s, .halted) →
      ∃ t, (Machine.mk (p.tailCalls A) limits).run n (.start store) = (t, .halted) ∧
        t.stack = s.stack ∧ t.store = s.store ∧
        (Machine.mk (p.tailCalls A) limits).peakDepth n (.start store) ≤
          (Machine.mk p limits).peakDepth n (.start store)) ∧
    (∀ n t, (Machine.mk (p.tailCalls A) limits).run n (.start store) = (t, .halted) →
      ∃ k s, (Machine.mk p limits).run k (.start store) = (s, .halted) ∧
          t.stack = s.stack ∧ t.store = s.store ∨
        ∃ f, (Machine.mk p limits).run k (.start store) = (s, .faulted f) ∧
          f.trap = .callDepthExceeded limits.maxCallDepth) := by
  have hsim := simulates_tailCalls h limits
  have hstart : Matched A ⟨p, limits⟩ ⟨p.tailCalls A, limits⟩ (.start store) (.start store) :=
    .inl ⟨.empty, .nil, rfl⟩
  constructor
  · intro n s hrun
    obtain ⟨t, ht, hst⟩ := hsim.run_halted hstart hrun
    obtain ⟨hstack, hstore⟩ := hst.stack_and_store
    exact ⟨t, ht, hstack, hstore, hsim.peakDepth_le hstart hrun⟩
  · intro n t hrun
    obtain ⟨k, s, hk⟩ := hsim.run_halted_back hstart hrun
    exact ⟨k, s, hk.imp_left fun ⟨hs, hst⟩ => ⟨hs, hst.stack_and_store⟩⟩

/-- `f = (n) => n ? f(n - 1) : 0; f(n)`, with `f` closed over a frame of its own. The call at 27 stands in
front of a return, the one at 35 does not. -/
def countdown (n : Int64) : Program :=
  ((((((((((((((((((Builder.empty.constant (.function ⟨7, 1⟩)).constant (.integer 0)).op
    .assignment).opWith .jump 30).functionHeader 1 false).opWith .accessLocal 0).opWith (.jumpIf true)
    19).constant (.integer 0)).op .ret).opWith .accessGlobal 0).datum .null).opWith .accessLocal
    0).constant (.integer 1)).op (.binary .sub)).opWith (.call .plain) 1).op .ret).opWith .accessGlobal
    0).datum .null).constant (.integer n) |>.opWith (.call .plain) 1 |>.op .halt |>.build

theorem tailPositions_countdown : (countdown 3).TailPositions {27} where
  call := by
    rintro _ rfl
    exact ⟨.plain, by decide +kernel, by decide⟩
  ret := by
    rintro _ rfl
    decide +kernel
  literal := by
    intro a ha
    obtain rfl : a = 26 := by simpa using ha
    decide +kernel

theorem tailCalls_refines_countdown :
    (countdown 3).TailPositions {27} ∧
      ∃ s t, (Machine.mk (countdown 3) .standard).run 41 (.start Store.empty.addRoot.addRoot) =
          (s, .halted) ∧
        (Machine.mk ((countdown 3).tailCalls {27}) .standard).run 41
          (.start Store.empty.addRoot.addRoot) = (t, .halted) ∧
        t.stack = s.stack ∧ t.store = s.store ∧
        (Machine.mk ((countdown 3).tailCalls {27}) .standard).peakDepth 41
            (.start Store.empty.addRoot.addRoot) ≤
          (Machine.mk (countdown 3) .standard).peakDepth 41 (.start Store.empty.addRoot.addRoot) := by
  have hend : ((Machine.mk (countdown 3) .standard).run 41 (.start Store.empty.addRoot.addRoot)).2 =
      .halted := by decide +kernel
  obtain ⟨s, hrun⟩ : ∃ s, (Machine.mk (countdown 3) .standard).run 41
      (.start Store.empty.addRoot.addRoot) = (s, .halted) := ⟨_, Prod.ext rfl hend⟩
  obtain ⟨t, ht⟩ := (tailCalls_refines (countdown 3) {27} .standard Store.empty.addRoot.addRoot
    tailPositions_countdown).1 41 s hrun
  exact ⟨tailPositions_countdown, s, t, hrun, ht⟩

end Machine

end StackMachine
