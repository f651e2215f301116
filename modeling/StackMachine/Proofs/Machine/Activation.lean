import StackMachine.Proofs.Machine.Calls
import StackMachine.Program.Builder

/-!
# What a call enters

A call succeeds just if its arguments and a function stand on the stack, the function has a header and takes
so many arguments, and there is room for one more call or none is needed (`Callable`). Then it goes on in the
body of the function, in a new frame inside the one in which the function was made (`Enters`). The frame has
one slot for each parameter, the last one of a variadic function for the list of all further arguments
(`Signature.slot?`). The main result is `call_enters`.
-/

namespace StackMachine

namespace Program.Signature

/-- A function takes as many arguments as it has parameters. A variadic one can do without any for its last
parameter, and takes any number for it. -/
def Takes (sig : Signature) (n : Nat) : Prop :=
  if sig.variadic then sig.parameters ≤ n + 1 else n = sig.parameters

/-- What stands in slot `i` when the body starts. -/
def slot? (sig : Signature) (arguments : List Datum) (i : Nat) : Option Datum :=
  if sig.variadic then
    if i + 1 < sig.parameters then arguments[i]?
    else if i + 1 = sig.parameters then some (.list (arguments.drop i))
    else none
  else arguments[i]?

end Program.Signature

namespace Machine

open Program (Signature)

variable {m : Machine} {kind : CallKind} {s t : State} {arguments slots : List Datum} {f : Closure}
  {sig : Signature} {rest : Stack Datum} {n : Int64}

/-- What a call needs: on the stack the arguments, the first one on top, and below them a function that takes
so many. There has to be room for one more call, unless this one takes over the place of its caller. -/
structure Callable (m : Machine) (kind : CallKind) (s : State) (arguments : List Datum) (f : Closure)
    (sig : Signature) (rest : Stack Datum) : Prop where
  stack : s.stack.items = arguments ++ .function f :: rest.items
  header : m.program.signature? f.address = some sig
  arity : sig.Takes arguments.length
  room : kind = .tail ∧ s.calls ≠ .empty ∨ s.callDepth < m.limits.maxCallDepth

/-- What a call leaves that starts in `s`. -/
structure Enters (kind : CallKind) (s : State) (arguments : List Datum) (f : Closure) (sig : Signature)
    (rest : Stack Datum) (t : State) : Prop where
  stack : t.stack = rest
  ip : t.ip = f.address + 5
  fresh : s.store.frame? t.scope = none
  frame : ∃ g, t.store.frame? t.scope = some g ∧ g.parent = some f.scope ∧
    (g.transparent = true ↔ sig.variadic = false ∧ arguments = []) ∧
    ∀ i : Nat, g.slots[i]? = (sig.slot? arguments i).map some
  others : ∀ id, id ≠ t.scope → t.store.frame? id = s.store.frame? id
  calls : t.calls = if kind = .tail ∧ s.calls ≠ .empty then s.calls else s.calls.push ⟨s.ip + 2, s.scope⟩

/-! ### Arguments and slots -/

structure Binds (sig : Signature) (arguments slots : List Datum) : Prop where
  slot : ∀ i : Nat, slots[i]? = sig.slot? arguments i
  isEmpty : slots.isEmpty = true ↔ sig.variadic = false ∧ arguments = []

theorem takes_of_bindArguments (h : bindArguments sig arguments = .ok slots) :
    sig.Takes arguments.length := by
  unfold bindArguments at h
  unfold Signature.Takes
  split at h
  · next hv =>
    dsimp only at h
    split at h
    · cases h
    · rw [if_pos hv]
      omega
  · next hv =>
    split at h
    · next hlength =>
      rw [if_neg hv]
      exact hlength
    · cases h

/-- The arguments from `k` on are gathered in one list behind the others. -/
theorem getElem?_gathered {k : Nat} (hk : k ≤ arguments.length) (i : Nat) :
    (arguments.take k ++ [.list (arguments.drop k)])[i]? =
      if i < k then arguments[i]? else if i = k then some (.list (arguments.drop i)) else none := by
  have hlength : (arguments.take k).length = k := List.length_take_of_le hk
  rcases Nat.lt_trichotomy i k with hlt | rfl | hgt
  · rw [List.getElem?_append_left (by omega), List.getElem?_take_of_lt hlt, if_pos hlt]
  · rw [List.getElem?_append_right (by omega), hlength, Nat.sub_self, if_neg (Nat.lt_irrefl i), if_pos rfl]
    rfl
  · rw [if_neg (by omega), if_neg (by omega), List.getElem?_eq_none]
    simp only [List.length_append, List.length_cons, List.length_nil]
    omega

theorem exists_bindArguments (hparameters : sig.variadic = true → 1 ≤ sig.parameters)
    (h : sig.Takes arguments.length) :
    ∃ slots, bindArguments sig arguments = .ok slots ∧ Binds sig arguments slots := by
  unfold Signature.Takes at h
  unfold bindArguments
  split at h
  · next hv =>
    have hpos := hparameters hv
    rw [if_pos hv]
    refine ⟨_, if_neg (by omega), ?_, ?_⟩
    · intro i
      rw [getElem?_gathered (by omega), Signature.slot?, if_pos hv]
      have hbefore : i < sig.parameters - 1 ↔ i + 1 < sig.parameters := by omega
      have hlast : i = sig.parameters - 1 ↔ i + 1 = sig.parameters := by omega
      simp only [hbefore, hlast]
    · simp [hv]
  · next hv =>
    rw [if_neg hv]
    refine ⟨arguments, if_pos h, ?_, ?_⟩
    · intro i
      rw [Signature.slot?, if_neg hv]
    · simp [hv]

/-! ### From a call that succeeds -/

theorem stack_eq_of_drop {stack : Stack Datum} {k : Nat} (h : stack.drop k = rest.push (.function f)) :
    stack.items = stack.take k ++ .function f :: rest.items := by
  have hitems := congrArg Stack.items h
  rw [Stack.items_drop, Stack.items_push] at hitems
  rw [← hitems]
  exact (List.take_append_drop k stack.items).symm

theorem callable_of_prepare {c : Invocation} (hn : m.program.get? (s.ip + 1) = some (.integer n))
    (h : m.prepare (announced (.call kind) s) = .ok c t)
    (hroom : kind = .tail ∧ s.calls ≠ .empty ∨ s.callDepth < m.limits.maxCallDepth) :
    ∃ arguments f sig rest, arguments.length = n.toInt.toNat ∧ Callable m kind s arguments f sig rest := by
  obtain ⟨k, rest, sig, hk, -, hcount, hlt, hdrop, hsig, hslots, -⟩ := prepare_eq_ok_iff.1 h
  -- the operand that the call has read is the one that stands behind it
  rw [ip_announced, hn] at hk
  obtain rfl : n = k := Datum.integer.inj (Option.some.inj hk)
  rw [stack_announced] at hlt hdrop hslots
  have hlength : (s.stack.take c.count).length = c.count := by
    rw [Stack.height_eq] at hlt
    exact List.length_take_of_le (by omega)
  exact ⟨s.stack.take c.count, c.callee, sig, rest, hlength.trans hcount, stack_eq_of_drop hdrop, hsig,
    takes_of_bindArguments hslots, hroom⟩

theorem callable_of_running (hs : s.halted = false)
    (hop : m.program.opcodeAt? s.ip = some (.call kind))
    (hn : m.program.get? (s.ip + 1) = some (.integer n)) (hrun : (m.step s).status = .running) :
    ∃ arguments f sig rest, arguments.length = n.toInt.toNat ∧ Callable m kind s arguments f sig rest := by
  obtain ⟨e, t, hcall, -⟩ := (running_of_call hs hop).1 hrun
  have hend := callEnd m kind (announced (.call kind) s)
  rw [hcall] at hend
  cases hend with
  | tail hp hk hd =>
    refine callable_of_prepare hn hp (.inl ⟨hk, fun h => hd ?_⟩)
    rw [eq_of_prepare hp]
    exact callDepth_eq_zero_iff.2 h
  | saved hp _ hlt =>
    refine callable_of_prepare hn hp (.inr ?_)
    rw [eq_of_prepare hp] at hlt
    exact hlt

/-! ### To a call that succeeds -/

theorem Callable.prepare (h : Callable m kind s arguments f sig rest)
    (hn : m.program.get? (s.ip + 1) = some (.integer n)) (hpos : 0 ≤ n.toInt)
    (hlength : arguments.length = n.toInt.toNat) :
    ∃ slots, Binds sig arguments slots ∧
      m.prepare (announced (.call kind) s) = .ok ⟨f, slots, arguments.length⟩
        { announced (.call kind) s with ip := s.ip + 2, stack := rest } := by
  have hparameters := Program.one_le_parameters h.header
  obtain ⟨slots, hslots, hbinds⟩ := exists_bindArguments hparameters h.arity
  have htake : s.stack.take arguments.length = arguments := by
    rw [Stack.take, h.stack, List.take_left]
  have hdrop : s.stack.drop arguments.length = rest.push (.function f) := by
    apply Stack.ext
    rw [Stack.items_drop, h.stack, List.drop_left, Stack.items_push]
  have hlt : arguments.length < s.stack.height := by
    rw [Stack.height_eq, h.stack, List.length_append, List.length_cons]
    omega
  refine ⟨slots, hbinds, prepare_eq_ok_iff.2 ⟨n, rest, sig, hn, hpos, hlength, hlt, hdrop, h.header, ?_, rfl⟩⟩
  rw [stack_announced, htake, hslots]

theorem Binds.enters (h : Binds sig arguments slots) (hstack : t.stack = rest) (hstore : t.store = s.store)
    (hcalls : t.calls = if kind = .tail ∧ s.calls ≠ .empty then s.calls
      else s.calls.push ⟨s.ip + 2, s.scope⟩) (count : Nat) :
    Enters kind s arguments f sig rest (entered ⟨f, slots, count⟩ t) where
  stack := hstack
  ip := rfl
  fresh := by
    show s.store.frame? t.store.size = none
    rw [hstore]
    exact Array.getElem?_eq_none (Nat.le_refl _)
  frame := by
    refine ⟨activation f slots, ?_, rfl, h.isEmpty, ?_⟩
    · show (t.store.add _).frame? t.store.size = _
      rw [Store.frame?_add, if_pos rfl]
    · intro i
      show (slots.map some).toArray[i]? = _
      rw [List.getElem?_toArray, List.getElem?_map, h.slot]
  others id hid := by
    have hid' : id ≠ t.store.size := hid
    show (t.store.add _).frame? id = _
    rw [Store.frame?_add, if_neg hid', hstore]
  calls := hcalls

theorem Callable.call (h : Callable m kind s arguments f sig rest)
    (hn : m.program.get? (s.ip + 1) = some (.integer n)) (hpos : 0 ≤ n.toInt)
    (hlength : arguments.length = n.toInt.toNat) :
    ∃ e t, m.call kind (announced (.call kind) s) = .ok e t ∧ t.halted = s.halted ∧
      Enters kind s arguments f sig rest t := by
  obtain ⟨slots, hbinds, hprepare⟩ := h.prepare hn hpos hlength
  rw [call_eq]
  show ∃ e t, EStateM.bind m.prepare _ _ = _ ∧ _
  rw [EStateM.bind, hprepare]
  by_cases htail : kind = .tail ∧ s.calls ≠ .empty
  · obtain ⟨rfl, hcalls⟩ := htail
    refine ⟨_, _, perform_of_tail (fun hd => hcalls (callDepth_eq_zero_iff.1 hd)), rfl, ?_⟩
    refine hbinds.enters ?_ ?_ ?_ _
    · rfl
    · rfl
    · rw [if_pos ⟨rfl, hcalls⟩]
      rfl
  · have hdepth : kind = .tail → s.callDepth = 0 := by
      intro hk
      exact callDepth_eq_zero_iff.2 (not_not.1 fun hcalls => htail ⟨hk, hcalls⟩)
    -- the caller is kept, and only then is room for it asked for
    have hlt : s.callDepth < m.limits.maxCallDepth := h.room.resolve_left htail
    refine ⟨_, _, perform_of_lt hdepth hlt, rfl, ?_⟩
    refine hbinds.enters ?_ ?_ ?_ _
    · rfl
    · rfl
    · rw [if_neg htail]
      rfl

/-- A call with `n` arguments succeeds just if it finds what it needs, and then it enters the body of the
function, in a frame of its own. -/
theorem call_enters (hs : s.halted = false) (hop : m.program.opcodeAt? s.ip = some (.call kind))
    (hn : m.program.get? (s.ip + 1) = some (.integer n)) (hpos : 0 ≤ n.toInt) :
    ((m.step s).status = .running ↔ ∃ arguments f sig rest, arguments.length = n.toInt.toNat ∧
      Callable m kind s arguments f sig rest) ∧
    ∀ arguments f sig rest, arguments.length = n.toInt.toNat →
      Callable m kind s arguments f sig rest → Enters kind s arguments f sig rest (m.next s) := by
  refine ⟨⟨callable_of_running hs hop hn, ?_⟩, ?_⟩
  · rintro ⟨arguments, f, sig, rest, hlength, h⟩
    obtain ⟨e, t, hcall, hhalted, -⟩ := h.call hn hpos hlength
    exact (running_of_call hs hop).2 ⟨e, t, hcall, hhalted.trans hs⟩
  · intro arguments f sig rest hlength h
    obtain ⟨e, t, hcall, -, henters⟩ := h.call hn hpos hlength
    rw [next_of_call hs hop, hcall]
    exact henters

/-- The function at `8` is given the one at `2`, made in the global scope, and calls it in its own place. That
one collects what stands behind its first argument. -/
def gatheringCall : Machine where
  program := ((((((((((((((Builder.empty.opWith .jump 23).functionHeader 2 true).op .ret).functionHeader 1
    false).opWith .accessLocal 0).constant (.integer 30)).constant (.integer 20)).constant
    (.integer 10)).opWith (.call .tail) 3).opWith .function 8).opWith .function 2).opWith
    (.call .plain) 1).op .halt)).build
  limits := .standard

theorem call_enters_gatheringCall :
    ∃ s, gatheringCall.Reachable s ∧ s.halted = false ∧
      gatheringCall.program.opcodeAt? s.ip = some (.call .tail) ∧
      gatheringCall.program.get? (s.ip + 1) = some (.integer 3) ∧ 0 ≤ (3 : Int64).toInt ∧
      s.scope ≠ globalScope ∧
      Callable gatheringCall .tail s [.integer 10, .integer 20, .integer 30] ⟨2, globalScope⟩ ⟨2, true⟩ .empty ∧
      (gatheringCall.step s).status = .running ∧
      Enters .tail s [.integer 10, .integer 20, .integer 30] ⟨2, globalScope⟩ ⟨2, true⟩ .empty
        (gatheringCall.next s) := by
  have hs : (gatheringCall.after 8 .initial).halted = false := by decide +kernel
  have hop : gatheringCall.program.opcodeAt? (gatheringCall.after 8 .initial).ip = some (.call .tail) := by
    decide +kernel
  have hn : gatheringCall.program.get? ((gatheringCall.after 8 .initial).ip + 1) = some (.integer 3) := by
    decide +kernel
  have hcallable : Callable gatheringCall .tail (gatheringCall.after 8 .initial)
      [.integer 10, .integer 20, .integer 30] ⟨2, globalScope⟩ ⟨2, true⟩ .empty := by
    refine ⟨?_, ?_, ?_, .inl ⟨rfl, ?_⟩⟩
    · decide +kernel
    · decide +kernel
    · exact Nat.le_succ_of_le (Nat.le_succ 2)
    · decide +kernel
  obtain ⟨hrun, henters⟩ := call_enters hs hop hn (by decide)
  exact ⟨_, ⟨8, rfl⟩, hs, hop, hn, by decide, by decide +kernel, hcallable,
    hrun.2 ⟨_, _, _, _, rfl, hcallable⟩, henters _ _ _ _ rfl hcallable⟩

end Machine

end StackMachine
