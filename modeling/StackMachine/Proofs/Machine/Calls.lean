import Mathlib
import StackMachine.Proofs.Machine.Invariant

/-!
# What calls and returns do

A call is prepared, which can only take data off the operand stack (`prepare_eq_ok_iff`), and then
performed, which touches everything else (`call_eq`). A call in place of its caller changes no saved
frame; every other one saves the place behind its operand and the scope of the caller. A return takes the
last frame saved and leaves the operand stack as it was. `callEnd` and `retEnd` tell all the ways in which
they can end.
-/

namespace StackMachine.Machine

variable {m : Machine} {s t u : State} {α β : Type}

theorem bind_eq_ok {x : Action α} {f : α → Action β} {b : β} :
    (x >>= f) s = .ok b u ↔ ∃ a t, x s = .ok a t ∧ f a t = .ok b u := by
  simp only [Bind.bind, EStateM.bind]
  cases x s with
  | ok a t =>
    constructor
    · intro h
      exact ⟨a, t, rfl, h⟩
    · rintro ⟨_, _, ⟨⟩, h⟩
      exact h
  | error e t => simp

theorem bind_of_ok {x : Action α} {g : α → Action β} {a : α} (h : x s = .ok a t) :
    (x >>= g) s = g a t := by
  simp only [Bind.bind, EStateM.bind, h]

theorem bind_of_error {x : Action α} {g : α → Action β} {e : Trap} (h : x s = .error e t) :
    (x >>= g) s = .error e t := by
  simp only [Bind.bind, EStateM.bind, h]

theorem pure_eq_ok {a b : α} : (pure a : Action α) s = .ok b t ↔ a = b ∧ s = t := by
  simp [pure, EStateM.pure]

theorem leaves_reported (x : Action Event) :
    leaves ((x >>= fun e => pure (some e)) s) = leaves (x s) := by
  simp only [Bind.bind, EStateM.bind]
  cases x s <;> rfl

theorem reported_eq_ok {x : Action Event} {r : Option Event} :
    (x >>= fun e => pure (some e)) s = .ok r t ↔ ∃ e, r = some e ∧ x s = .ok e t := by
  simp only [bind_eq_ok, pure_eq_ok]
  constructor
  · rintro ⟨e, _, hx, rfl, rfl⟩
    exact ⟨e, rfl, hx⟩
  · rintro ⟨e, rfl, hx⟩
    exact ⟨e, t, hx, rfl, rfl⟩

/-! ### The actions that prepare a call -/

theorem operand_eq_ok {d : Datum} :
    m.operand s = .ok d t ↔ m.program.get? s.ip = some d ∧ t = { s with ip := s.ip + 1 } := by
  unfold operand
  split
  · next h => simp [h, eq_comm]
  · next h => simp [h]

theorem asInteger_eq_ok {d : Datum} {n : Int64} :
    asInteger d s = .ok n t ↔ d = .integer n ∧ s = t := by
  cases d <;> simp [asInteger, Datum.asInteger, pure_eq_ok, throw, throwThe, MonadExceptOf.throw,
    EStateM.throw]

theorem index_eq_ok {i : Nat} :
    m.index s = .ok i t ↔ ∃ n : Int64, m.program.get? s.ip = some (.integer n) ∧ 0 ≤ n.toInt ∧
      i = n.toInt.toNat ∧ t = { s with ip := s.ip + 1 } := by
  simp only [index, bind_eq_ok, operand_eq_ok, asInteger_eq_ok]
  constructor
  · rintro ⟨d, _, ⟨hd, rfl⟩, n, _, ⟨rfl, rfl⟩, h⟩
    split at h
    · next hn =>
      obtain ⟨rfl, rfl⟩ := pure_eq_ok.1 h
      exact ⟨n, hd, hn, rfl, rfl⟩
    · cases h
  · rintro ⟨n, hd, hn, rfl, rfl⟩
    exact ⟨_, _, ⟨hd, rfl⟩, n, _, ⟨rfl, rfl⟩, by rw [if_pos hn]; rfl⟩

theorem popArguments_eq_ok {n : Nat} {arguments : List Datum} :
    popArguments n s = .ok arguments t ↔ n < s.stack.height ∧ arguments = s.stack.take n ∧
      t = { s with stack := s.stack.drop n } := by
  unfold popArguments
  split
  · next h => simp [h, eq_comm]
  · next h => simp [h]

theorem pop_eq_ok {d : Datum} :
    pop s = .ok d t ↔ ∃ rest, s.stack = rest.push d ∧ t = { s with stack := rest } := by
  unfold pop
  split
  · next d' rest h =>
    rw [Stack.pop?_eq_some_iff] at h
    simp only [EStateM.Result.ok.injEq, h, Stack.push_inj]
    constructor
    · rintro ⟨rfl, rfl⟩; exact ⟨rest, ⟨rfl, rfl⟩, rfl⟩
    · rintro ⟨_, ⟨rfl, rfl⟩, rfl⟩; exact ⟨rfl, rfl⟩
  · next h =>
    rw [Stack.pop?_eq_none_iff] at h
    simp [h, (Stack.push_ne_empty _ _).symm]

theorem callee_eq_ok {f : Closure} :
    callee s = .ok f t ↔ ∃ rest, s.stack = rest.push (.function f) ∧
      t = { s with stack := rest } := by
  simp only [callee, bind_eq_ok, pop_eq_ok]
  constructor
  · rintro ⟨d, _, ⟨rest, hs, rfl⟩, h⟩
    cases d with
    | function g =>
      obtain ⟨rfl, rfl⟩ := pure_eq_ok.1 h
      exact ⟨rest, hs, rfl⟩
    | null | integer | real | instruction | list | scope => cases h
  · rintro ⟨rest, hs, rfl⟩
    exact ⟨_, _, ⟨rest, hs, rfl⟩, rfl⟩

theorem header_eq_ok {a : Nat} {sig : Program.Signature} :
    m.header a s = .ok sig t ↔ m.program.signature? a = some sig ∧ s = t := by
  unfold header
  cases m.program.signature? a with
  | none => simp [throw, throwThe, MonadExceptOf.throw, EStateM.throw]
  | some sig' => simp [pure_eq_ok]

theorem computed_eq_ok {r : Except Trap α} {a : α} : computed r s = .ok a t ↔ r = .ok a ∧ s = t := by
  cases r with
  | ok b => simp [computed, pure_eq_ok]
  | error e => simp [computed, throw, throwThe, MonadExceptOf.throw, EStateM.throw]

/-! ### Calls -/

theorem callDepth_eq_zero_iff : s.callDepth = 0 ↔ s.calls = .empty := by
  unfold State.callDepth
  rcases s.calls.eq_empty_or_eq_push with h | ⟨rest, f, h⟩
  · simp [h, Stack.empty]
  · simp [h]

/-- A call whose operands have been found: the function, the slots of its frame and the number of its
arguments. -/
structure Invocation where
  callee : Closure
  slots : List Datum
  count : Nat

/-- The part of a call before it changes anything but the operand stack. -/
def prepare (m : Machine) : Action Invocation := do
  let count ← m.index
  let arguments ← popArguments count
  let f ← callee
  let sig ← m.header f.address
  let slots ← computed (bindArguments sig arguments)
  pure ⟨f, slots, count⟩

def perform (m : Machine) (kind : CallKind) (c : Invocation) : Action Event := do
  if kind = .tail ∧ (← get).callDepth ≠ 0 then
    enter c.callee c.slots
    pure (.tailCall c.callee.address c.count)
  else
    m.saveCaller
    enter c.callee c.slots
    pure (.call c.callee.address c.count (← get).callDepth)

theorem call_eq (m : Machine) (kind : CallKind) : m.call kind = m.prepare >>= m.perform kind := by
  simp only [call, prepare, bind_assoc, pure_bind]
  refine congrArg (m.index >>= ·) (funext fun count => ?_)
  refine congrArg (popArguments count >>= ·) (funext fun arguments => ?_)
  refine congrArg (callee >>= ·) (funext fun f => ?_)
  unfold header
  cases m.program.signature? f.address with
  | none => rfl
  | some sig => rfl

/-- The state in which the body of a function starts. -/
def entered (c : Invocation) (s : State) : State :=
  { s with
    ip := c.callee.address + Program.headerSize
    scope := s.store.size
    store := s.store.add (activation c.callee c.slots) }

def saved (s : State) : State := { s with calls := s.calls.push ⟨s.ip, s.scope⟩ }

theorem prepare_eq_ok_iff {c : Invocation} :
    m.prepare s = .ok c t ↔ ∃ (n : Int64) (rest : Stack Datum) (sig : Program.Signature),
      m.program.get? s.ip = some (.integer n) ∧ 0 ≤ n.toInt ∧ c.count = n.toInt.toNat ∧
      c.count < s.stack.height ∧ s.stack.drop c.count = rest.push (.function c.callee) ∧
      m.program.signature? c.callee.address = some sig ∧
      bindArguments sig (s.stack.take c.count) = .ok c.slots ∧
      t = { s with ip := s.ip + 1, stack := rest } := by
  simp only [prepare, bind_eq_ok, index_eq_ok, popArguments_eq_ok, callee_eq_ok, header_eq_ok,
    computed_eq_ok, pure_eq_ok]
  constructor
  · rintro ⟨_, _, ⟨n, hn, hpos, rfl, rfl⟩, _, _, ⟨hlt, rfl, rfl⟩, f, _, ⟨rest, hr, rfl⟩, sig, _,
      ⟨hsig, rfl⟩, slots, _, ⟨hslots, rfl⟩, rfl, rfl⟩
    exact ⟨n, rest, sig, hn, hpos, rfl, hlt, hr, hsig, hslots, rfl⟩
  · rintro ⟨n, rest, sig, hn, hpos, hc, hlt, hr, hsig, hslots, rfl⟩
    exact ⟨_, _, ⟨n, hn, hpos, hc, rfl⟩, _, _, ⟨hlt, rfl, rfl⟩, _, _, ⟨rest, hr, rfl⟩, sig, _,
      ⟨hsig, rfl⟩, _, _, ⟨hslots, rfl⟩, rfl, rfl⟩

/-- A prepared call has read its operand and taken data off the stack. -/
theorem eq_of_prepare {c : Invocation} (h : m.prepare s = .ok c t) :
    t = { s with ip := s.ip + 1, stack := t.stack } := by
  obtain ⟨_, _, _, _, _, _, _, _, _, _, rfl⟩ := prepare_eq_ok_iff.1 h
  rfl

theorem perform_of_tail {c : Invocation} (hd : s.callDepth ≠ 0) :
    m.perform .tail c s = .ok (.tailCall c.callee.address c.count) (entered c s) := by
  show (if _ then _ else _ : Action Event) s = _
  rw [if_pos ⟨rfl, hd⟩]; rfl

theorem perform_of_lt {kind : CallKind} {c : Invocation} (hk : kind = .tail → s.callDepth = 0)
    (hd : s.callDepth < m.limits.maxCallDepth) :
    m.perform kind c s =
      .ok (.call c.callee.address c.count (s.callDepth + 1)) (entered c (saved s)) := by
  show (if _ then _ else _ : Action Event) s = _
  rw [if_neg fun h => h.2 (hk h.1)]
  show EStateM.bind m.saveCaller _ s = _
  simp only [EStateM.bind, saveCaller, if_pos hd]
  rfl

theorem perform_of_le {kind : CallKind} {c : Invocation} (hk : kind = .tail → s.callDepth = 0)
    (hd : m.limits.maxCallDepth ≤ s.callDepth) :
    m.perform kind c s = .error (.callDepthExceeded m.limits.maxCallDepth) s := by
  show (if _ then _ else _ : Action Event) s = _
  rw [if_neg fun h => h.2 (hk h.1)]
  show EStateM.bind m.saveCaller _ s = _
  simp only [EStateM.bind, saveCaller, if_neg (Nat.not_lt.2 hd)]

theorem next_of_call {kind : CallKind} (hs : s.halted = false)
    (hop : m.program.opcodeAt? s.ip = some (.call kind)) :
    m.next s = leaves (m.call kind (announced (.call kind) s)) :=
  (next_of_opcode hs hop).trans (leaves_reported _)

theorem running_of_call {kind : CallKind} (hs : s.halted = false)
    (hop : m.program.opcodeAt? s.ip = some (.call kind)) :
    (m.step s).status = .running ↔
      ∃ e t, m.call kind (announced (.call kind) s) = .ok e t ∧ t.halted = false := by
  rw [running_of_opcode hs hop]
  constructor
  · rintro ⟨r, t, hr, ht⟩
    obtain ⟨e, rfl, he⟩ := reported_eq_ok.1 hr
    exact ⟨e, t, he, ht⟩
  · rintro ⟨e, t, he, ht⟩
    exact ⟨some e, t, reported_eq_ok.2 ⟨e, rfl, he⟩, ht⟩

inductive CallEnd (m : Machine) (kind : CallKind) (s : State) : EStateM.Result Trap State Event → Prop
  | unprepared {e : Trap} {t : State} : m.prepare s = .error e t → CallEnd m kind s (.error e t)
  | tail {c : Invocation} {t : State} : m.prepare s = .ok c t → kind = .tail → t.callDepth ≠ 0 →
    CallEnd m kind s (.ok (.tailCall c.callee.address c.count) (entered c t))
  | saved {c : Invocation} {t : State} : m.prepare s = .ok c t → (kind = .tail → t.callDepth = 0) →
    t.callDepth < m.limits.maxCallDepth →
    CallEnd m kind s (.ok (.call c.callee.address c.count (t.callDepth + 1)) (entered c (saved t)))
  | exceeded {c : Invocation} {t : State} : m.prepare s = .ok c t → (kind = .tail → t.callDepth = 0) →
    m.limits.maxCallDepth ≤ t.callDepth →
    CallEnd m kind s (.error (.callDepthExceeded m.limits.maxCallDepth) t)

theorem callEnd (m : Machine) (kind : CallKind) (s : State) : CallEnd m kind s (m.call kind s) := by
  rw [call_eq]
  show CallEnd m kind s (EStateM.bind m.prepare _ s)
  unfold EStateM.bind
  cases hp : m.prepare s with
  | error e t => exact .unprepared hp
  | ok c t =>
    dsimp only
    by_cases hk : kind = .tail ∧ t.callDepth ≠ 0
    · obtain ⟨rfl, hd⟩ := hk
      rw [perform_of_tail hd]
      exact .tail hp rfl hd
    have hk' : kind = .tail → t.callDepth = 0 := by
      intro htail
      by_contra hd
      exact hk ⟨htail, hd⟩
    rcases Nat.lt_or_ge t.callDepth m.limits.maxCallDepth with hlt | hle
    · rw [perform_of_lt hk' hlt]
      exact .saved hp hk' hlt
    · rw [perform_of_le hk' hle]
      exact .exceeded hp hk' hle

theorem Respects.prepare {excused : Trap → Prop} {m m' : Machine} {R : State → State → Prop}
    (h : Respects excused m m' R) : Lockstep excused R R Eq m.prepare m'.prepare := by
  have hcallee : Lockstep excused R R Eq callee callee := by
    refine h.pop.bind_eq fun d => ?_
    cases d with
    | function f => exact .pure rfl
    | null | integer | real | instruction | list | scope => exact .throw _
  refine h.index.bind_eq fun count => ?_
  refine (h.popArguments count).bind_eq fun arguments => ?_
  refine hcallee.bind_eq fun f => ?_
  refine (h.header f.address).bind_eq fun sig => ?_
  exact (Lockstep.computed _).bind_eq fun slots => .pure rfl

/-! ### Returns -/

variable {st : Stack Datum} {calls : Stack CallFrame} {v : Datum} {f : CallFrame}

theorem ret_of_empty (h : s.stack = .empty) : m.ret s = .error .stackUnderflow s := by
  simp [ret, Bind.bind, EStateM.bind, pop, h]

theorem ret_outside (h : s.stack = st.push v) (hc : s.calls = .empty) :
    m.ret s = .error .returnOutsideCall { s with stack := st } := by
  simp [ret, Bind.bind, EStateM.bind, pop, resume, h, hc]

theorem ret_of_push (h : s.stack = st.push v) (hc : s.calls = calls.push f)
    (hlt : st.height < m.limits.stackCapacity) :
    m.ret s = .ok (.ret f.returnAddress calls.height)
      { s with ip := f.returnAddress, scope := f.scope, calls := calls } := by
  simp [ret, Bind.bind, EStateM.bind, pop, resume, push, h, hc, hlt, get, getThe, MonadStateOf.get,
    EStateM.get, pure, EStateM.pure, State.callDepth]

theorem ret_of_le (h : s.stack = st.push v) (hc : s.calls = calls.push f)
    (hle : m.limits.stackCapacity ≤ st.height) :
    m.ret s = .error (.stackOverflow m.limits.stackCapacity)
      { s with stack := st, ip := f.returnAddress, scope := f.scope, calls := calls } := by
  simp [ret, Bind.bind, EStateM.bind, pop, resume, push, h, hc, Nat.not_lt.2 hle]

theorem next_of_ret (hs : s.halted = false) (hop : m.program.opcodeAt? s.ip = some .ret) :
    m.next s = leaves (m.ret (announced .ret s)) :=
  (next_of_opcode hs hop).trans (leaves_reported _)

theorem running_of_ret (hs : s.halted = false) (hop : m.program.opcodeAt? s.ip = some .ret) :
    (m.step s).status = .running ↔ ∃ e t, m.ret (announced .ret s) = .ok e t ∧ t.halted = false := by
  rw [running_of_opcode hs hop]
  constructor
  · rintro ⟨r, t, hr, ht⟩
    obtain ⟨e, rfl, he⟩ := reported_eq_ok.1 hr
    exact ⟨e, t, he, ht⟩
  · rintro ⟨e, t, he, ht⟩
    exact ⟨some e, t, reported_eq_ok.2 ⟨e, rfl, he⟩, ht⟩

theorem faulted_of_ret {e : Trap} (hs : s.halted = false) (hop : m.program.opcodeAt? s.ip = some .ret)
    (h : m.ret (announced .ret s) = .error e t) :
    ∃ i, (m.step s).status = .faulted ⟨e, s.ip, some i⟩ :=
  (step_of_error hs hop (bind_of_error h)).2

inductive RetEnd (m : Machine) (s : State) : EStateM.Result Trap State Event → Prop
  | empty : s.stack = .empty → RetEnd m s (.error .stackUnderflow s)
  | outside {st : Stack Datum} {v : Datum} : s.stack = st.push v → s.calls = .empty →
    RetEnd m s (.error .returnOutsideCall { s with stack := st })
  | resumed {st : Stack Datum} {v : Datum} {calls : Stack CallFrame} {f : CallFrame} :
    s.stack = st.push v → s.calls = calls.push f → st.height < m.limits.stackCapacity →
    RetEnd m s (.ok (.ret f.returnAddress calls.height)
      { s with ip := f.returnAddress, scope := f.scope, calls := calls })
  | overflow {st : Stack Datum} {v : Datum} {calls : Stack CallFrame} {f : CallFrame} :
    s.stack = st.push v → s.calls = calls.push f → m.limits.stackCapacity ≤ st.height →
    RetEnd m s (.error (.stackOverflow m.limits.stackCapacity)
      { s with stack := st, ip := f.returnAddress, scope := f.scope, calls := calls })

theorem retEnd (m : Machine) (s : State) : RetEnd m s (m.ret s) := by
  rcases s.stack.eq_empty_or_eq_push with hs | ⟨st, v, hs⟩
  · rw [ret_of_empty hs]
    exact .empty hs
  rcases s.calls.eq_empty_or_eq_push with hc | ⟨calls, f, hc⟩
  · rw [ret_outside hs hc]
    exact .outside hs hc
  rcases Nat.lt_or_ge st.height m.limits.stackCapacity with hlt | hle
  · rw [ret_of_push hs hc hlt]
    exact .resumed hs hc hlt
  · rw [ret_of_le hs hc hle]
    exact .overflow hs hc hle

end StackMachine.Machine
