import StackMachine.Proofs.Machine.Bracketing

/-!
# Steps that report as they go

Here an event goes into the log when it is made, in the midst of actions that can still trap, and a trap does
not take it back. The instruction is reported before it is looked at any closer, the deprecated one gets its
warning before its list is pushed, a call is reported when the caller has been saved, and a return before its
value is back on the stack. Nothing can go wrong after a call or a return has been reported, as the value fits
in where it came from; so these steps are those of `Machine.step`, which reports in the end (`step_eq`).
-/

namespace StackMachine

namespace Machine

variable {m : Machine} {op : Opcode} {s : State} {α : Type}

/-! ### What an instruction reports itself -/

def Silent (x : Action (Option Event)) : Prop := ∀ s r t, x s = .ok r t → r = none

theorem Silent.pure : Silent (pure none) := by
  intro s r t h
  exact (pure_eq_ok.1 h).1.symm

theorem Silent.bind {x : Action α} {f : α → Action (Option Event)} (h : ∀ a, Silent (f a)) :
    Silent (x >>= f) := by
  intro s r t hx
  obtain ⟨a, u, -, hx⟩ := bind_eq_ok.1 hx
  exact h a u r t hx

theorem Silent.of_action (x : Action α) : Silent (x >>= fun _ => Pure.pure none) := .bind fun _ => .pure

/-- Only calls and returns are reported by the instruction itself. -/
theorem silent_execute (hcall : ∀ kind, op ≠ .call kind) (hret : op ≠ .ret) : Silent (m.execute op) := by
  cases op with
  | call kind => exact absurd rfl (hcall kind)
  | ret => exact absurd rfl hret
  | nothing => exact .pure
  | jumpIf condition =>
    refine .bind fun a => .bind fun d => ?_
    dsimp only
    split
    · exact .of_action _
    · exact .pure
  | constant | function | jump | duplicate => exact .bind fun _ => .of_action _
  | swap => exact .bind fun _ => .bind fun _ => .bind fun _ => .of_action _
  | binary | not | negate | factorial | compare | chain | halt | discard | assignment | accessGlobal
  | accessLocal | accessSemi | unload | emptyArray | emptyList | reserved => exact .of_action _

theorem announce_of_ne (h : op ≠ .emptyArray) :
    (announce op s).2 = [.execute s.ip op s.stack.height] := by
  simp [announce, h]

end Machine

namespace Reporting

open Machine (Invocation Fits Silent announce announced pop resume enter outcome)

/-! ### Actions with a log -/

variable {α : Type}

/-- An action that has a log besides the state, and keeps it when it traps. -/
abbrev Action := EStateM Trap (State × List Event)

def quietly (x : StackMachine.Action α) : Action α := fun (s, log) =>
  match x s with
  | .ok a t => .ok a (t, log)
  | .error e t => .error e (t, log)

def report (e : Event) : Action Unit := modify fun (s, log) => (s, log ++ [e])

def state : Action State := do return (← get).1

variable (m : Machine)

def keepCaller (kind : CallKind) (c : Invocation) : Action Unit := do
  if kind = .tail ∧ (← state).callDepth ≠ 0 then
    report (.tailCall c.callee.address c.count)
  else
    quietly m.saveCaller
    report (.call c.callee.address c.count (← state).callDepth)

def call (kind : CallKind) : Action Unit := do
  let c ← quietly m.prepare
  keepCaller m kind c
  quietly (enter c.callee c.slots)

def ret : Action Unit := do
  let v ← quietly pop
  let caller ← quietly resume
  report (.ret caller.returnAddress (← state).callDepth)
  quietly (m.push v)

/-- The instruction pointer is past the deprecated instruction already. -/
def warn : Action Unit := do
  let s ← state
  if s.warned then pure ()
  else
    report (.deprecated (s.ip - 1))
    quietly (modify fun s => { s with warned := true })

def emptyArray : Action Unit := do
  warn
  quietly (m.push (.list []))

def execute (m : Machine) : Opcode → Action Unit
  | .call kind => call m kind
  | .ret => ret m
  | .emptyArray => emptyArray m
  | op => do
    let _ ← quietly (m.execute op)

def carryOut (op : Opcode) : Action Unit := do
  let s ← state
  report (.execute s.ip op s.stack.height)
  quietly (modify fun s => { s with ip := s.ip + 1 })
  execute m op

def step (m : Machine) (s : State) : Outcome :=
  if s.halted then ⟨s, .halted, []⟩
  else match m.fetch s.ip with
    | .error t => ⟨s, .faulted ⟨t, s.ip, none⟩, []⟩
    | .ok i => match i.opcode? with
      | none => ⟨s, .faulted ⟨.unknownOpcode i.id, s.ip, some i⟩, []⟩
      | some op => match carryOut m op (s, []) with
        | .ok _ (t, log) => ⟨t, if t.halted then .halted else .running, log⟩
        | .error e (t, log) => ⟨t, .faulted ⟨e, s.ip, some i⟩, log⟩

variable {m : Machine} {kind : CallKind} {op : Opcode} {s t : State} {log : List Event} {a : α} {e : Trap}
  {x : StackMachine.Action α} {f : α → Action Unit}

theorem quietly_bind_of_ok (h : x s = .ok a t) : (quietly x >>= f) (s, log) = f a (t, log) := by
  show EStateM.bind (quietly x) f (s, log) = _
  rw [EStateM.bind, quietly, h]

theorem quietly_bind_of_error (h : x s = .error e t) : (quietly x >>= f) (s, log) = .error e (t, log) := by
  show EStateM.bind (quietly x) f (s, log) = _
  rw [EStateM.bind, quietly, h]

/-- What is left of an action that reports in the end, if at all. -/
def recorded (log : List Event) :
    EStateM.Result Trap State (Option Event) → EStateM.Result Trap (State × List Event) Unit
  | .ok reported t => .ok () (t, log ++ reported.toList)
  | .error e t => .error e (t, log)

/-! ### Calls -/

variable {c : Invocation}

theorem keepCaller_of_tail (hd : s.callDepth ≠ 0) :
    keepCaller m .tail c (s, log) = .ok () (s, log ++ [.tailCall c.callee.address c.count]) := by
  show (if _ then _ else _ : Action Unit) (s, log) = _
  rw [if_pos ⟨rfl, hd⟩]
  rfl

theorem keepCaller_of_lt (hk : kind = .tail → s.callDepth = 0) (hd : s.callDepth < m.limits.maxCallDepth) :
    keepCaller m kind c (s, log) =
      .ok () (Machine.saved s, log ++ [.call c.callee.address c.count (s.callDepth + 1)]) := by
  have hsaved : m.saveCaller s = .ok () (Machine.saved s) := if_pos hd
  show (if _ then _ else _ : Action Unit) (s, log) = _
  rw [if_neg fun h => h.2 (hk h.1), quietly_bind_of_ok hsaved]
  rfl

theorem keepCaller_of_le (hk : kind = .tail → s.callDepth = 0) (hd : m.limits.maxCallDepth ≤ s.callDepth) :
    keepCaller m kind c (s, log) = .error (.callDepthExceeded m.limits.maxCallDepth) (s, log) := by
  have hfull : m.saveCaller s = .error (.callDepthExceeded m.limits.maxCallDepth) s := if_neg (Nat.not_lt.2 hd)
  show (if _ then _ else _ : Action Unit) (s, log) = _
  rw [if_neg fun h => h.2 (hk h.1), quietly_bind_of_error hfull]

/-- The body of the function is entered without fail. -/
theorem perform_eq (kind : CallKind) (c : Invocation) (s : State) (log : List Event) :
    (keepCaller m kind c >>= fun _ => quietly (enter c.callee c.slots)) (s, log) =
      recorded log ((m.perform kind c >>= fun e => pure (some e)) s) := by
  show EStateM.bind (keepCaller m kind c) _ (s, log) = recorded log (EStateM.bind (m.perform kind c) _ s)
  unfold EStateM.bind
  by_cases htail : kind = .tail ∧ s.callDepth ≠ 0
  · obtain ⟨rfl, hd⟩ := htail
    rw [keepCaller_of_tail hd, Machine.perform_of_tail hd]
    rfl
  have hk : kind = .tail → s.callDepth = 0 := fun hk => not_not.1 fun hd => htail ⟨hk, hd⟩
  rcases Nat.lt_or_ge s.callDepth m.limits.maxCallDepth with hlt | hle
  · rw [keepCaller_of_lt hk hlt, Machine.perform_of_lt hk hlt]
    rfl
  · rw [keepCaller_of_le hk hle, Machine.perform_of_le hk hle]
    rfl

theorem call_eq (kind : CallKind) (s : State) (log : List Event) :
    call m kind (s, log) = recorded log ((m.call kind >>= fun e => pure (some e)) s) := by
  rw [Machine.call_eq, bind_assoc]
  cases hp : m.prepare s with
  | error e t =>
    rw [call, quietly_bind_of_error hp]
    show _ = recorded log (EStateM.bind m.prepare _ s)
    rw [EStateM.bind, hp]
    rfl
  | ok c t =>
    rw [call, quietly_bind_of_ok hp, perform_eq]
    show _ = recorded log (EStateM.bind m.prepare _ s)
    rw [EStateM.bind, hp]

/-! ### Returns -/

/-- The value has just been taken off the stack, so that there is room for it. -/
theorem ret_eq (hfit : Fits m s) (log : List Event) :
    ret m (s, log) = recorded log ((m.ret >>= fun e => pure (some e)) s) := by
  show _ = recorded log (EStateM.bind m.ret _ s)
  rw [EStateM.bind, ret]
  rcases s.stack.eq_empty_or_eq_push with hs | ⟨st, v, hs⟩
  · have hpop : pop s = .error .stackUnderflow s := by rw [pop, hs]; rfl
    rw [Machine.ret_of_empty hs, quietly_bind_of_error hpop]
    rfl
  have hpop : pop s = .ok v { s with stack := st } := Machine.pop_eq_ok.2 ⟨st, hs, rfl⟩
  rw [quietly_bind_of_ok hpop]
  rcases s.calls.eq_empty_or_eq_push with hc | ⟨calls, f, hc⟩
  · have hresume : resume { s with stack := st } = .error .returnOutsideCall { s with stack := st } := by
      rw [resume, hc]
      rfl
    rw [Machine.ret_outside hs hc, quietly_bind_of_error hresume]
    rfl
  have hresume : resume { s with stack := st } =
      .ok f { s with stack := st, ip := f.returnAddress, scope := f.scope, calls := calls } := by
    rw [resume, hc]
    rfl
  have hroom : st.height < m.limits.stackCapacity := by
    rw [Fits, hs, Stack.height_push] at hfit
    exact hfit
  rw [quietly_bind_of_ok hresume, Machine.ret_of_push hs hc hroom]
  show quietly (m.push v) (_, _) = _
  rw [quietly, Machine.push, if_pos hroom, ← hs]
  rfl

/-! ### Steps -/

theorem quietly_eq {x : StackMachine.Action (Option Event)} (hx : Silent x) (s : State) (log : List Event) :
    (quietly x >>= fun _ => pure ()) (s, log) = recorded log (x s) := by
  cases h : x s with
  | error e t => exact quietly_bind_of_error h
  | ok r t =>
    obtain rfl : r = none := hx s r t h
    rw [quietly_bind_of_ok h, recorded, Option.toList_none, List.append_nil]
    rfl

theorem warn_eq (s : State) : warn ({ s with ip := s.ip + 1 }, [.execute s.ip .emptyArray s.stack.height]) =
    .ok () (announced .emptyArray s, (announce .emptyArray s).2) := by
  obtain ⟨ip, stack, calls, scope, store, halted, warned⟩ := s
  cases warned <;> rfl

theorem carryOut_emptyArray (s : State) : carryOut m .emptyArray (s, []) =
    recorded (announce .emptyArray s).2 (m.execute .emptyArray (announced .emptyArray s)) := by
  show EStateM.bind warn _ ({ s with ip := s.ip + 1 }, [.execute s.ip .emptyArray s.stack.height]) =
    recorded _ (EStateM.bind (m.push (.list [])) _ _)
  simp only [EStateM.bind, warn_eq, quietly]
  cases m.push (.list []) (announced .emptyArray s) with
  | error e t => rfl
  | ok u t =>
    show _ = EStateM.Result.ok () (t, _ ++ [])
    rw [List.append_nil]

/-- The room for the value of a return is the only thing that the state has to grant. -/
theorem carryOut_eq (hfit : Fits m s) (op : Opcode) :
    carryOut m op (s, []) = recorded (announce op s).2 (m.execute op (announced op s)) := by
  by_cases hop : op = .emptyArray
  · rw [hop]
    exact carryOut_emptyArray s
  show execute m op ({ s with ip := s.ip + 1 }, [.execute s.ip op s.stack.height]) = _
  rw [Machine.announced_of_ne hop, Machine.announce_of_ne hop]
  have hfit' : Fits m { s with ip := s.ip + 1 } := hfit
  by_cases hcall : ∃ kind, op = .call kind
  · obtain ⟨kind, rfl⟩ := hcall
    exact call_eq kind _ _
  by_cases hret : op = .ret
  · subst hret
    exact ret_eq hfit' _
  have hcall' : ∀ kind, op ≠ .call kind := fun kind h => hcall ⟨kind, h⟩
  have hexecute : execute m op = quietly (m.execute op) >>= fun _ => pure () := by
    unfold execute
    split
    · exact absurd rfl (hcall' _)
    · exact absurd rfl hret
    · exact absurd rfl hop
    · rfl
  rw [hexecute]
  exact quietly_eq (Machine.silent_execute hcall' hret) _ _

/-- Reports that are made on the way are those that are made in the end. -/
theorem step_eq (hfit : Fits m s) : step m s = m.step s := by
  unfold step Machine.step
  split
  · rfl
  cases m.fetch s.ip with
  | error e => rfl
  | ok i =>
  dsimp only
  cases i.opcode? with
  | none => rfl
  | some op =>
    dsimp only
    rw [carryOut_eq hfit]
    show _ = outcome s i (announce op s).2 (m.execute op (announced op s))
    cases m.execute op (announced op s) <;> rfl

end Reporting

end StackMachine
