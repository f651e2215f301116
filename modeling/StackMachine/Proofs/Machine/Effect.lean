import StackMachine.Proofs.Machine.Ends

/-!
# The effect of a step

A step ends in one of two ways. If it meets a fault then it has read operands and taken data off the stack
and done nothing else (`spent_of_faulted`). Otherwise it has carried out an instruction, and `Done` tells
what the instruction can have changed: what a call and a return do, and of the others where each datum on
the stack comes from and which slot was written (`done_of_not_faulted`). Invariants follow by the cases of
`spent_or_done`.
-/

namespace StackMachine.Machine

variable {m : Machine} {s t u : State} {k : Nat} {op : Opcode}

/-! ### What an instruction changes -/

/-- Where a datum comes from that stands on the stack after an instruction. -/
inductive Origin (m : Machine) (s : State) : Datum → Prop
  | kept {d : Datum} : d ∈ s.stack.items → Origin m s d
  | literal {a : Nat} {d : Datum} : m.program.get? a = some d → Origin m s d
  | read {id : FrameId} {i : Nat} {d : Datum} : s.store.slot id i = .ok d → Origin m s d
  | closure (a : Nat) : Origin m s (.function ⟨a, s.scope⟩)
  | plain {d : Datum} : d.IsPlain → Origin m s d

/-- What an instruction other than a call makes of the store. -/
inductive Writes (m : Machine) (op : Opcode) (s : State) : Store → Prop
  | nothing : op ≠ .assignment → op ≠ .unload → Writes m op s s.store
  | assigned {i : Nat} {v : Datum} : op = .assignment → i < m.limits.maxSlots → v ∈ s.stack.items →
    Writes m op s (s.store.set s.scope i v)
  | unloaded {i : Nat} : op = .unload → Writes m op s (s.store.unset globalScope i)

theorem Writes.size {store : Store} (h : Writes m op s store) : store.size = s.store.size := by
  cases h with
  | nothing => rfl
  | assigned => exact Store.size_modify _ _ _
  | unloaded => exact Store.size_modify _ _ _

/-- What an instruction other than a call and a return does. -/
structure Local (m : Machine) (op : Opcode) (s t : State) : Prop where
  calls : t.calls = s.calls
  scope : t.scope = s.scope
  halted : op ≠ .halt → t.halted = s.halted
  stack : ∀ d ∈ t.stack.items, Origin m s d
  store : Writes m op s t.store

theorem Spent.local (h : Spent k s t) (ha : op ≠ .assignment) (hu : op ≠ .unload) : Local m op s t where
  calls := h.calls
  scope := h.scope
  halted _ := h.halted
  stack _ hd := .kept (h.stack.subset hd)
  store := h.store ▸ .nothing ha hu

theorem Local.push (h : Local m op s u) {d : Datum} (hd : Origin m s d) :
    Local m op s { u with stack := u.stack.push d } where
  calls := h.calls
  scope := h.scope
  halted := h.halted
  stack := by
    intro e he
    rcases List.mem_cons.1 he with rfl | he
    · exact hd
    · exact h.stack e he
  store := h.store

theorem Local.goto (h : Local m op s u) (a : Nat) {halted : Bool}
    (hh : op ≠ .halt → halted = s.halted) : Local m op s { u with ip := a, halted := halted } :=
  ⟨h.calls, h.scope, hh, h.stack, h.store⟩

theorem origin_of_get {id : FrameId} {i : Nat} {d : Datum} (h : s.store.get id i = .ok d) :
    Origin m s d := by
  unfold Store.get at h
  split at h
  · cases h
  · exact .read h

theorem origin_of_getAt {id : FrameId} {level i : Nat} {d : Datum}
    (h : s.store.getAt id level i = .ok d) : Origin m s d := by
  unfold Store.getAt at h
  split at h
  · cases h
  · exact .read h

/-! ### Instructions, one by one -/

theorem binary_ends (op : BinaryOp) (s : State) :
    Ends (m.binary op) s (fun _ t => Local m (.binary op) s t) (Trapped (.binary op) s) := by
  have h := Spent.refl 0 s
  refine .bind (.pop h (by omega) fun right _ _ h => ?_)
  refine .bind (.pop h (by omega) fun left _ _ h => ?_)
  refine .bind (.operator h (by omega) (op.computes_apply left right) fun d hd => ?_)
  exact .push d h (by omega) ((h.local (by simp) (by simp)).push (.plain hd))

theorem unary_ends {f : Datum → Except Trap Datum} (hf : ∀ d, Computes (f d)) (ha : op ≠ .assignment)
    (hu : op ≠ .unload) (s : State) :
    Ends (m.unary f) s (fun _ t => Local m op s t) (Trapped op s) := by
  have h := Spent.refl 0 s
  refine .bind (.pop h (by omega) fun d _ _ h => ?_)
  refine .bind (.operator h (by omega) (hf d) fun r hr => ?_)
  exact .push r h (by omega) ((h.local ha hu).push (.plain hr))

theorem comparison_ends (c : Comparison) (s : State) :
    Ends (m.comparison c) s (fun _ t => Local m (.compare c) s t) (Trapped (.compare c) s) := by
  have h := Spent.refl 0 s
  refine .bind (.pop h (by omega) fun right _ _ h => ?_)
  refine .bind (.pop h (by omega) fun left _ _ h => ?_)
  refine .bind (.computed h (by omega) (fun e he => ?_) fun holds _ => ?_)
  · exact (Comparison.isArithmetic_of_apply he).canRaise _
  · exact .push _ h (by omega) ((h.local (by simp) (by simp)).push (.plain trivial))

/-- The second datum is put into room that the three operands have left. -/
theorem chainLink_ends (c : Comparison) (hfit : Fits m s) :
    Ends (m.chainLink c) s (fun _ t => Local m (.chain c) s t) (Trapped (.chain c) s) := by
  have h := Spent.refl 0 s
  refine .bind (.pop h (by omega) fun right r hr h => ?_)
  have hright := (Spent.refl 0 s).mem hr
  refine .bind (.pop h (by omega) fun left r' hr' h => ?_)
  refine .bind (.computed h (by omega) (fun e he => ?_) fun holds _ => ?_)
  · exact (Comparison.isArithmetic_of_apply he).canRaise _
  refine .bind (.pop h (by omega) fun before r'' hr'' h => ?_)
  refine .bind (.push _ h (by omega) ?_)
  have hlink : Local m (.chain c) s _ := h.local (by simp) (by simp)
  have hplain : Origin m s (.ofBool (before.truthy && holds)) := .plain trivial
  refine .push_of_lt right ?_ ((hlink.push hplain).push (.kept hright))
  have hheight : s.stack.height = r''.height + 1 + 1 + 1 := by
    rw [hr, show r = _ from hr', show r' = _ from hr'']
    rfl
  show r''.height + 1 < _
  unfold Fits at hfit
  omega

theorem assign_ends (s : State) :
    Ends m.assign s (fun _ t => Local m .assignment s t) (Trapped .assignment s) := by
  have h := Spent.refl 0 s
  refine .bind (.pop h (by omega) fun d _ _ h => ?_)
  refine .bind (.asInteger d h (by omega) fun n => ?_)
  refine .bind (.slotIndex n h (by omega) fun i hi => ?_)
  refine .bind (.pop h (by omega) fun v _ hv h' => ?_)
  have hmem := h.mem hv
  exact {
    calls := h'.calls
    scope := h'.scope
    halted := fun _ => h'.halted
    stack := fun e he => .kept (h'.stack.subset he)
    store := .assigned rfl hi hmem }

theorem unload_ends (s : State) :
    Ends m.unload s (fun _ t => Local m .unload s t) (Trapped .unload s) := by
  have h := Spent.refl 0 s
  refine .bind (.index h (by omega) fun i h => ?_)
  exact {
    calls := h.calls
    scope := h.scope
    halted := fun _ => h.halted
    stack := fun e he => .kept (h.stack.subset he)
    store := .unloaded rfl }

theorem accessGlobal_ends (s : State) :
    Ends m.accessGlobal s (fun _ t => Local m .accessGlobal s t) (Trapped .accessGlobal s) := by
  have h := Spent.refl 0 s
  refine .bind (.index h (by omega) fun i h => ?_)
  refine .bind (.operand h (by omega) fun _ _ h => ?_)
  refine .bind (.get ?_)
  refine .bind (.found h (by omega) fun d hd => ?_)
  exact .push d h (by omega) ((h.local (by simp) (by simp)).push (origin_of_get hd))

theorem accessLocal_ends (s : State) :
    Ends m.accessLocal s (fun _ t => Local m .accessLocal s t) (Trapped .accessLocal s) := by
  have h := Spent.refl 0 s
  refine .bind (.index h (by omega) fun i h => ?_)
  refine .bind (.get ?_)
  refine .bind (.found h (by omega) fun d hd => ?_)
  exact .push d h (by omega) ((h.local (by simp) (by simp)).push (origin_of_get hd))

theorem accessLevel_ends (s : State) :
    Ends m.accessLevel s (fun _ t => Local m .accessSemi s t) (Trapped .accessSemi s) := by
  have h := Spent.refl 0 s
  refine .bind (.index h (by omega) fun level h => ?_)
  refine .bind (.index h (by omega) fun i h => ?_)
  refine .bind (.get ?_)
  refine .bind (.found h (by omega) fun d hd => ?_)
  exact .push d h (by omega) ((h.local (by simp) (by simp)).push (origin_of_getAt hd))

theorem execute_ends (hcall : ∀ kind, op ≠ .call kind) (hret : op ≠ .ret) (hfit : Fits m s) :
    Ends (m.execute op) s (fun _ t => Local m op s t) (Trapped op s) := by
  have h := Spent.refl 0 s
  cases op with
  | call kind => exact absurd rfl (hcall kind)
  | ret => exact absurd rfl hret
  | nothing => exact .pure (h.local (by simp) (by simp))
  | halt => exact .ignore (.modify ((h.local (by simp) (by simp)).goto s.ip (absurd rfl)))
  | constant =>
    refine .bind (.operand h (by omega) fun d hd h => ?_)
    exact .ignore (.push d h (by omega) ((h.local (by simp) (by simp)).push (.literal hd)))
  | binary op => exact .ignore (binary_ends op s)
  | not => exact .ignore (unary_ends (fun d => computes_ofBool _) (by simp) (by simp) s)
  | negate => exact .ignore (unary_ends computes_negate (by simp) (by simp) s)
  | factorial => exact .ignore (unary_ends computes_factorial (by simp) (by simp) s)
  | compare c => exact .ignore (comparison_ends c s)
  | chain c => exact .ignore (chainLink_ends c hfit)
  | function =>
    refine .bind (.index h (by omega) fun a h => ?_)
    refine .bind (.get ?_)
    exact .ignore (.push _ h (by omega) ((h.local (by simp) (by simp)).push (.closure a)))
  | jump =>
    refine .bind (.index h (by omega) fun a h => ?_)
    exact .ignore (.modify ((h.local (by simp) (by simp)).goto a fun _ => rfl))
  | jumpIf condition =>
    refine .bind (.index h (by omega) fun a h => ?_)
    refine .bind (.pop h (by omega) fun d _ _ h => ?_)
    split
    · exact .ignore (.modify ((h.local (by simp) (by simp)).goto a fun _ => rfl))
    · exact .pure (h.local (by simp) (by simp))
  | duplicate =>
    refine .bind (.top h (by omega) fun d hd => ?_)
    exact .ignore (.push d h (by omega) ((h.local (by simp) (by simp)).push (.kept hd)))
  | discard =>
    refine .bind (.pop h (by omega) fun _ _ _ h => ?_)
    exact h.local (by simp) (by simp)
  | swap =>
    refine .bind (.pop h (by omega) fun right r hr h => ?_)
    refine .bind (.pop h (by omega) fun left r' hr' h' => ?_)
    refine .bind (.push right h' (by omega) ?_)
    have hright := (Spent.refl 0 s).mem hr
    have hleft := h.mem hr'
    have hswap : Local m .swap s _ := h'.local (by simp) (by simp)
    refine .ignore (.push_of_lt left ?_ ((hswap.push (.kept hright)).push (.kept hleft)))
    have hheight : s.stack.height = r'.height + 1 + 1 := by
      rw [hr, show r = _ from hr']
      rfl
    show r'.height + 1 < _
    unfold Fits at hfit
    omega
  | assignment => exact .ignore (assign_ends s)
  | accessGlobal => exact .ignore (accessGlobal_ends s)
  | accessLocal => exact .ignore (accessLocal_ends s)
  | accessSemi => exact .ignore (accessLevel_ends s)
  | unload => exact .ignore (unload_ends s)
  | emptyArray | emptyList =>
    exact .ignore (.push _ h (by omega) ((h.local (by simp) (by simp)).push (.plain trivial)))
  | reserved r => exact ⟨rfl, h.mono (by omega)⟩

/-! ### Calls and returns -/

theorem prepare_ends (kind : CallKind) (s : State) :
    Ends m.prepare s (fun _ t => Spent 1 s t) (Trapped (.call kind) s) := by
  have h := Spent.refl 0 s
  refine .bind (.index h (by omega) fun count h => ?_)
  refine .bind (.popArguments count h (by omega) fun h => ?_)
  refine .bind (.bind (.pop h (by omega) fun d _ _ h => ?_))
  cases d with
  | function f =>
    refine .pure (.bind ?_)
    unfold header
    cases m.program.signature? f.address with
    | none => exact ⟨trivial, h.mono (by omega)⟩
    | some sig =>
      refine .pure (.bind (.computed h (by omega) (fun e he => ?_) fun slots _ => .pure h))
      unfold bindArguments at he
      split at he
      · dsimp only at he
        split at he
        · cases he
          trivial
        · cases he
      · split at he
        · cases he
        · cases he
          trivial
  | null | integer | real | instruction | list | scope => exact ⟨trivial, h.mono (by omega)⟩

/-- The function and the content of the slots of a call come from the stack, each from a place of its own
there. -/
structure Invocation.From (c : Invocation) (s : State) : Prop where
  callee : .function c.callee ∈ s.stack.items
  slots : ∀ d ∈ c.slots,
    d ∈ s.stack.items ∨ ∃ items, d = .list items ∧ ∀ e ∈ items, e ∈ s.stack.items
  length : c.slots.length ≤ s.stack.height

theorem bindArguments_slots {sig : Program.Signature} {arguments slots : List Datum}
    (h : bindArguments sig arguments = .ok slots) :
    slots.length ≤ arguments.length + 1 ∧
      ∀ d ∈ slots, d ∈ arguments ∨ ∃ items, d = .list items ∧ ∀ e ∈ items, e ∈ arguments := by
  unfold bindArguments at h
  split at h
  · dsimp only at h
    split at h
    · cases h
    · cases h
      constructor
      · simp only [List.length_append, List.length_take, List.length_singleton]
        omega
      · intro d hd
        rcases List.mem_append.1 hd with hd | hd
        · exact .inl (List.mem_of_mem_take hd)
        · obtain rfl : d = .list _ := List.mem_singleton.1 hd
          exact .inr ⟨_, rfl, fun e he => List.mem_of_mem_drop he⟩
  · split at h
    · cases h
      exact ⟨Nat.le_succ _, fun d hd => .inl hd⟩
    · cases h

theorem from_of_prepare {c : Invocation} (h : m.prepare s = .ok c t) : c.From s := by
  obtain ⟨_, rest, sig, _, _, _, hlt, hdrop, _, hslots, _⟩ := prepare_eq_ok_iff.1 h
  obtain ⟨hlength, hmem⟩ := bindArguments_slots hslots
  have htake : ∀ d ∈ s.stack.take c.count, d ∈ s.stack.items := fun d hd => List.mem_of_mem_take hd
  constructor
  · have hcallee : .function c.callee ∈ (s.stack.drop c.count).items := by
      rw [hdrop]
      exact List.mem_cons_self
    exact List.mem_of_mem_drop hcallee
  · intro d hd
    rcases hmem d hd with hd | ⟨items, rfl, hitems⟩
    · exact .inl (htake d hd)
    · exact .inr ⟨items, rfl, fun e he => htake e (hitems e he)⟩
  · have hcount : (s.stack.take c.count).length ≤ c.count := List.length_take_le _ _
    omega

/-! ### Steps -/

/-- What a step does that meets no fault. -/
inductive Done (m : Machine) (s : State) : State → Prop
  | still : s.halted = true → Done m s s
  | instruction {op : Opcode} {t : State} : m.program.opcodeAt? s.ip = some op →
    Local m op (announced op s) t → Done m s t
  | tailCalled {c : Invocation} {t : State} : m.program.opcodeAt? s.ip = some (.call .tail) →
    m.prepare (announced (.call .tail) s) = .ok c t → t.callDepth ≠ 0 → Done m s (entered c t)
  | called {kind : CallKind} {c : Invocation} {t : State} :
    m.program.opcodeAt? s.ip = some (.call kind) → m.prepare (announced (.call kind) s) = .ok c t →
    (kind = .tail → t.callDepth = 0) → t.callDepth < m.limits.maxCallDepth →
    Done m s (entered c (saved t))
  | returned {st : Stack Datum} {v : Datum} {calls : Stack CallFrame} {f : CallFrame} :
    m.program.opcodeAt? s.ip = some .ret → s.stack = st.push v → s.calls = calls.push f →
    Done m s { announced .ret s with ip := f.returnAddress, scope := f.scope, calls := calls }

theorem call_ends {kind : CallKind} (hop : m.program.opcodeAt? s.ip = some (.call kind)) :
    Ends (m.call kind) (announced (.call kind) s) (fun _ t => Done m s t)
      (Trapped (.call kind) (announced (.call kind) s)) := by
  have hend := callEnd m kind (announced (.call kind) s)
  unfold Ends
  cases hx : m.call kind (announced (.call kind) s) with
  | error e t =>
    rw [hx] at hend
    cases hend with
    | unprepared hp => exact (prepare_ends kind _).error hp
    | exceeded hp _ _ => exact ⟨trivial, ((prepare_ends kind _).ok hp).mono (by omega)⟩
  | ok e t =>
    rw [hx] at hend
    cases hend with
    | tail hp hk hd =>
      subst hk
      exact .tailCalled hop hp hd
    | saved hp hk hlt => exact .called hop hp hk hlt

/-- A return whose value fits the stack can only fail before it takes a frame off. -/
theorem ret_ends (hfit : Fits m s) (hop : m.program.opcodeAt? s.ip = some .ret) :
    Ends m.ret (announced .ret s) (fun _ t => Done m s t) (Trapped .ret (announced .ret s)) := by
  have hend := retEnd m (announced .ret s)
  unfold Ends
  cases hx : m.ret (announced .ret s) with
  | error e t =>
    rw [hx] at hend
    cases hend with
    | empty _ => exact ⟨trivial, .refl 2 _⟩
    | @outside st v hs _ =>
      refine ⟨trivial, (Spent.refl 2 _).taken ?_⟩
      rw [hs]
      exact List.suffix_cons v st.items
    | overflow hs _ hle =>
      rw [stack_announced] at hs
      rw [Fits, hs, Stack.height_push] at hfit
      omega
  | ok e t =>
    rw [hx] at hend
    cases hend with
    | resumed hs hc _ => exact .returned hop hs hc

theorem Done.halts (h : Done m s t) (hs : s.halted = false) (ht : t.halted = true) :
    m.program.opcodeAt? s.ip = some .halt := by
  have hkept : t.halted = s.halted → m.program.opcodeAt? s.ip = some .halt := fun h =>
    absurd (hs.symm.trans (h.symm.trans ht)) Bool.false_ne_true
  cases h with
  | still => exact hkept rfl
  | @instruction op _ hop hlocal =>
    by_cases hhalt : op = .halt
    · rw [hop, hhalt]
    · exact hkept (hlocal.halted hhalt)
  | tailCalled _ hc _ => exact hkept ((prepare_ends .plain _).ok hc).halted
  | called _ hc _ _ => exact hkept ((prepare_ends .plain _).ok hc).halted
  | returned => exact hkept rfl

/-- An instruction that a step carries out does what `Done` tells, or meets a trap. -/
theorem done_ends (hfit : Fits m s) (hop : m.program.opcodeAt? s.ip = some op) :
    Ends (m.execute op) (announced op s) (fun _ t => Done m s t) (Trapped op (announced op s)) := by
  by_cases hcall : ∃ kind, op = .call kind
  · obtain ⟨kind, rfl⟩ := hcall
    exact .ignore (call_ends hop)
  by_cases hret : op = .ret
  · subst hret
    exact .ignore (ret_ends hfit hop)
  have hfit' : Fits m (announced op s) := hfit
  exact (execute_ends (fun kind h => hcall ⟨kind, h⟩) hret hfit').mono fun _ _ => .instruction hop

theorem trapped_of_faulted {f : Fault} (hfit : Fits m s) (h : (m.step s).status = .faulted f)
    (hop : m.program.opcodeAt? s.ip = some op) :
    Trapped op (announced op s) f.trap (m.next s) := by
  cases hs : s.halted with
  | true =>
    rw [step_of_halted hs] at h
    cases h
  | false =>
    cases hx : m.execute op (announced op s) with
    | error e t =>
      obtain ⟨hnext, i, hi⟩ := step_of_error hs hop hx
      rw [hi] at h
      cases h
      rw [hnext]
      exact (done_ends hfit hop).error hx
    | ok r t =>
      have hstatus := (step_of_ok hs hop hx).2
      rw [h] at hstatus
      split at hstatus <;> cases hstatus

/-- A step that meets a fault where no instruction is known. -/
theorem next_of_opcodeAt?_eq_none (hop : m.program.opcodeAt? s.ip = none) : m.next s = s := by
  cases hs : s.halted with
  | true => rw [next, step_of_halted hs]
  | false =>
    obtain ⟨f, hf⟩ := step_of_opcodeAt?_eq_none hs hop
    rw [next, hf]

theorem spent_of_faulted {f : Fault} (hfit : Fits m s) (h : (m.step s).status = .faulted f) :
    Spent 3 s (m.next s) := by
  cases hop : m.program.opcodeAt? s.ip with
  | none =>
    rw [next_of_opcodeAt?_eq_none hop]
    exact .refl 3 s
  | some op => exact (spent_announced op s).trans (trapped_of_faulted hfit h hop).spent

theorem done_of_not_faulted (hfit : Fits m s) (h : ∀ f, (m.step s).status ≠ .faulted f) :
    Done m s (m.next s) := by
  cases hs : s.halted with
  | true =>
    rw [next, step_of_halted hs]
    exact .still hs
  | false =>
    obtain ⟨op, r, hop, hx⟩ := exists_execute_of_not_faulted hs h
    exact (done_ends hfit hop).ok hx

theorem opcodeAt?_of_step_halted (hfit : Fits m s) (hs : s.halted = false)
    (h : (m.step s).status = .halted) : m.program.opcodeAt? s.ip = some .halt := by
  have hfault : ∀ f, (m.step s).status ≠ .faulted f := by simp [h]
  exact (done_of_not_faulted hfit hfault).halts hs (halted_of_step h)

theorem spent_or_done (hfit : Fits m s) : Spent 3 s (m.next s) ∨ Done m s (m.next s) := by
  by_cases h : ∃ f, (m.step s).status = .faulted f
  · obtain ⟨f, hf⟩ := h
    exact .inl (spent_of_faulted hfit hf)
  · exact .inr (done_of_not_faulted hfit fun f hf => h ⟨f, hf⟩)

end StackMachine.Machine
