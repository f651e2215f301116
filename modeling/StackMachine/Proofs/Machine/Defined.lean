import StackMachine.Proofs.Machine.FrameEffect
import StackMachine.Proofs.Machine.Guarded

/-!
# Every step is defined

No operation of the guarded machine is ever without a result. Most are safe by what was looked at before: an
address is only gone past after something was found there, which is below the end of the program; indices
and counts come from integers, and so are small; the header of a function tells of at least one parameter
if the last one collects, and where the header ends is hardly beyond the program (`header_eq`); the arguments
are at least as many as those before the last parameter; a row is filled up before it is written
(`define_eq`). That frames are there is an invariant of all data that a state holds (`Housed`). So the steps
are those of the machine itself, from every state that is reached (`step_defined`).
-/

namespace StackMachine

-- powers are those of the core library, whatever else is imported
attribute [local instance (high)] instPowNat

namespace Guarded

variable {α β : Type} {m : Machine} {s t : State} {f : Frame} {i : Nat} {v : Datum} {store : Store}
  {id : FrameId}

/-! ### Operations on words, lists and rows -/

theorem add_eq {a b : Nat} (h : a + b < wordBound) : add a b = .ok (a + b) := if_pos h

theorem sub_eq {a b : Nat} (h : b ≤ a) : sub a b = .ok (a - b) := if_pos h

theorem remainder_eq (a : Int64) {b : Int64} (h : b ≠ 0) :
    ∃ r, remainder a b = .ok r ∧ Integer.ofInt? (a.toInt.tmod b.toInt) = some r := by
  refine ⟨a % b, if_neg h, ?_⟩
  rw [Integer.ofInt?_eq_some_iff, Int64.toInt_mod]

theorem write_eq {row : Array α} {a : α} (h : i < row.size) :
    write row i a = .ok (row.setIfInBounds i a) := by
  rw [write, dif_pos h, Array.setIfInBounds_def, dif_pos h]

theorem fillUp_eq {slots : Array (Option Datum)} (h : i + 1 < wordBound) :
    fillUp slots i = .ok (slots ++ Array.replicate (i + 1 - slots.size) none) := by
  unfold fillUp
  split
  · rw [add_eq h]
    rfl
  · rw [Nat.sub_eq_zero_of_le (by omega), Array.replicate_zero, Array.append_empty]
    rfl

theorem define_eq (h : i + 1 < wordBound) : define f i v = .ok (f.define i v) := by
  have hsize : i < (f.slots ++ Array.replicate (i + 1 - f.slots.size) none).size := by
    rw [Array.size_append, Array.size_replicate]
    omega
  rw [define, fillUp_eq h]
  show (write _ i (some v) >>= _) = _
  rw [write_eq hsize]
  rfl

theorem modify_const (hf : store.frame? id = some f) (change : Frame → Frame) :
    store.modify id (fun _ => change f) = store.modify id change := by
  obtain ⟨frames⟩ := store
  refine congrArg Store.mk (Array.ext_getElem? fun j => ?_)
  rw [Array.getElem?_modify, Array.getElem?_modify]
  split
  · next hj =>
    subst hj
    rw [show frames[id]? = some f from hf]
    rfl
  · rfl

theorem set_eq (h : i + 1 < wordBound) (hid : id < store.size) :
    set store id i v = .ok (store.set id i v) := by
  have howner := Store.owner_mem_chain hid i
  obtain ⟨f, hf⟩ := Store.exists_frame? (Store.lt_size_of_mem_chain howner)
  rw [set, hf]
  show (define f i v >>= _) = _
  rw [define_eq h]
  exact congrArg Except.ok (modify_const hf (·.define i v))

theorem define_next (front : List Datum) (v : Datum) (parent : Option FrameId) (transparent : Bool) :
    (Frame.mk (front.map some).toArray parent transparent).define front.length v =
      ⟨((front ++ [v]).map some).toArray, parent, transparent⟩ := by
  have hslots : ((front.map some).toArray ++ Array.replicate
      (front.length + 1 - (front.map some).toArray.size) none).setIfInBounds front.length (some v) =
      ((front ++ [v]).map some).toArray := by simp
  exact congrArg (Frame.mk · parent transparent) hslots

theorem defineFrom_eq (front data : List Datum) (h : front.length + data.length < wordBound)
    (parent : Option FrameId) (transparent : Bool) :
    defineFrom ⟨(front.map some).toArray, parent, transparent⟩ front.length data =
      .ok ⟨((front ++ data).map some).toArray, parent, transparent⟩ := by
  induction data generalizing front with
  | nil =>
    rw [List.append_nil]
    rfl
  | cons v data ih =>
    rw [List.length_cons] at h
    have hlength : (front ++ [v]).length = front.length + 1 := by simp
    have hrest := ih (front ++ [v]) (by omega)
    rw [hlength, List.append_assoc, List.singleton_append] at hrest
    rw [defineFrom, define_eq (by omega), define_next]
    exact hrest

/-! ### Operators -/

theorem binary_eq (op : BinaryOp) (left right : Datum) :
    binary (.binary op) left right = trapped (op.apply left right) := by
  unfold binary BinaryOp.apply
  cases numericOperands (.binary op) left right with
  | error e => rfl
  | ok operands =>
    cases operands with
    | reals x y => cases op <;> rfl
    | integers a b =>
      cases op with
      | mod =>
        by_cases hb : b = 0
        · subst hb
          rfl
        · obtain ⟨r, hr, hfit⟩ := remainder_eq a hb
          have hmod : BinaryOp.mod.onIntegers a b = .ok (.integer r) := by
            rw [BinaryOp.onIntegers, if_neg hb, hfit]
            rfl
          show (if b = 0 then _ else remainder a b >>= _) = trapped (BinaryOp.mod.onIntegers a b)
          rw [if_neg hb, hr, hmod]
          rfl
      | add | sub | mul | div | pow | and | or => rfl

theorem compare_eq {c : Comparison} {op : Opcode} (hop : op = .compare c ∨ op = .chain c)
    (left right : Datum) : compare op left right = trapped (c.apply op left right) := by
  unfold compare Comparison.apply
  cases numericOperands op left right with
  | error e => rfl
  | ok operands => rcases hop with rfl | rfl <;> rfl

/-! ### Headers and arguments -/

variable {p : Program}

theorem add?_bind_get? (hsize : p.size ≤ wordBound) (address offset : Nat) :
    (add? address offset).bind p.get? = p.get? (address + offset) := by
  unfold add?
  split
  · rfl
  · next h =>
    have hend : p.size ≤ address + offset := by omega
    exact (Array.getElem?_eq_none hend).symm

theorem headerField_eq (hsize : p.size ≤ wordBound) (address offset : Nat) :
    headerField p address offset = match p.get? (address + offset) with
      | some (.integer n) => .ok n
      | _ => .error (.trap (.malformedHeader address)) := by
  have hmatch := congrArg (fun d : Option Datum => match d with
    | some (.integer n) => (.ok n : Except Failure Int64)
    | _ => .error (.trap (.malformedHeader address))) (add?_bind_get? hsize address offset)
  exact hmatch

/-- The body of a function with a header starts at an address that is a word. -/
theorem header_eq (hsize : p.size ≤ 2 ^ (63 : Nat)) (address : Nat) :
    header p address = match p.signature? address with
      | some sig => .ok (sig, address + Program.headerSize)
      | none => .error (.trap (.malformedHeader address)) := by
  have hword : p.size ≤ wordBound := by unfold wordBound; omega
  unfold header Program.signature?
  rw [headerField_eq hword, headerField_eq hword]
  cases p.get? (address + Program.parametersOffset) with
  | none => rfl
  | some d =>
  cases d with
  | null | real | instruction | function | list | scope => rfl
  | integer parameters =>
  show (if parameters.toInt < 0 then _ else _) = _
  cases hv : p.get? (address + Program.variadicOffset) with
  | none => split <;> rfl
  | some e =>
  cases e with
  | null | real | instruction | function | list | scope => split <;> rfl
  | integer variadic =>
    have hlt : address + Program.variadicOffset < p.size := (Array.getElem?_eq_some_iff.1 hv).1
    have hentry : add? address Program.headerSize = some (address + Program.headerSize) :=
      if_pos (by simp only [Program.variadicOffset, Program.headerSize, wordBound] at *; omega)
    by_cases hneg : parameters.toInt < 0
    · rw [if_pos hneg]
      dsimp only
      rw [if_pos (.inl hneg)]
    · rw [if_neg hneg]
      show (if variadic ≠ 0 ∧ parameters = 0 then _ else _) = _
      by_cases hzero : variadic ≠ 0 ∧ parameters = 0
      · rw [if_pos hzero]
        dsimp only
        rw [if_pos (.inr hzero)]
      · rw [if_neg hzero, hentry]
        dsimp only
        rw [if_neg (not_or.2 ⟨hneg, hzero⟩)]

theorem bindArguments_eq {sig : Program.Signature} (h : sig.variadic = true → 1 ≤ sig.parameters)
    (arguments : List Datum) :
    bindArguments sig arguments = trapped (Machine.bindArguments sig arguments) := by
  unfold bindArguments Machine.bindArguments
  split
  · next hv =>
    rw [sub_eq (h hv)]
    show (if _ then _ else splitOff arguments (sig.parameters - 1) >>= _) = _
    dsimp only
    split
    · rfl
    · next hlt =>
      rw [splitOff, if_pos (Nat.not_lt.1 hlt)]
      rfl
  · split <;> rfl

theorem activation_eq (hsize : p.size ≤ 2 ^ (63 : Nat)) (f : Closure) {arguments : List Datum}
    (harguments : arguments.length < 2 ^ (63 : Nat)) :
    activation p f arguments = match p.signature? f.address with
      | some sig => trapped ((Machine.bindArguments sig arguments).map fun slots =>
          (f.address + Program.headerSize, Machine.activation f slots))
      | none => .error (.trap (.malformedHeader f.address)) := by
  unfold activation
  rw [header_eq hsize]
  cases hsig : p.signature? f.address with
  | none => rfl
  | some sig =>
    show (bindArguments sig arguments >>= _) = trapped ((Machine.bindArguments sig arguments).map _)
    rw [bindArguments_eq (Program.one_le_parameters hsig)]
    cases hslots : Machine.bindArguments sig arguments with
    | error e => rfl
    | ok slots =>
      have hlength : ([] : List Datum).length + slots.length < wordBound := by
        have hle := (Machine.bindArguments_slots hslots).1
        rw [List.length_nil]
        unfold wordBound
        omega
      have hframe : defineFrom ⟨#[], some f.scope, slots.isEmpty⟩ 0 slots =
          .ok (Machine.activation f slots) := defineFrom_eq [] slots hlength _ _
      show (defineFrom _ 0 slots >>= _) = _
      rw [hframe]
      rfl

/-! ### Actions -/

/-- From this state on the guarded action is defined, and does what the other one does. -/
def Agrees (x : Action α) (y : StackMachine.Action α) (s : State) : Prop := x s = lift y s

namespace Agrees

variable {x : Action α} {y : StackMachine.Action α} {a : α}

theorem pure (a : α) (s : State) : Agrees (Pure.pure a) (Pure.pure a) s := rfl

theorem lift (y : StackMachine.Action α) (s : State) : Agrees (lift y) y s := rfl

theorem trap (e : Trap) (s : State) :
    Agrees (throw (.trap e)) (throw e : StackMachine.Action α) s := rfl

theorem bind {f : α → Action β} {g : α → StackMachine.Action β} (h : Agrees x y s)
    (hf : ∀ a t, y s = .ok a t → Agrees (f a) (g a) t) : Agrees (x >>= f) (y >>= g) s := by
  unfold Agrees at *
  show EStateM.bind x f s = Guarded.lift (EStateM.bind y g) s
  unfold EStateM.bind Guarded.lift at *
  rw [h]
  dsimp only
  cases hy : y s with
  | ok a t => exact hf a t hy
  | error e t => rfl

theorem ignore (h : Agrees x y s) (b : β) :
    Agrees (x >>= fun _ => Pure.pure b) (y >>= fun _ => Pure.pure b) s :=
  h.bind fun _ t _ => .pure b t

theorem defined {r : Except Failure β} {b : β} {f : β → Action α} (h : r = .ok b)
    (hf : Agrees (f b) y s) : Agrees (computed r >>= f) y s := by
  subst h
  exact hf

theorem computed {r : Except Failure α} {r' : Except Trap α} (h : r = trapped r') :
    Agrees (computed r) (Machine.computed r') s := by
  subst h
  cases r' <;> rfl

theorem reach {f : Unit → Action α} (h : id < s.store.size) (hf : Agrees (f ()) y s) :
    Agrees (reach id >>= f) y s := by
  have hchain : (s.store.chain id).isEmpty = false := by
    obtain ⟨f, hf⟩ := Store.exists_frame? h
    exact List.isEmpty_eq_false_iff.2 (List.ne_nil_of_mem (Store.mem_chain_self hf))
  unfold Agrees at *
  show EStateM.bind (Guarded.reach id) f s = _
  unfold EStateM.bind Guarded.reach
  rw [hchain]
  exact hf

theorem get {f : State → Action α} {g : State → StackMachine.Action α} (h : Agrees (f s) (g s) s) :
    Agrees (MonadState.get >>= f) (MonadState.get >>= g) s := h

end Agrees

/-! ### Instructions, one by one -/

theorem operand_agrees (hsize : m.program.size ≤ 2 ^ (63 : Nat)) (s : State) :
    Agrees (operand m) m.operand s := by
  unfold Agrees operand lift Machine.operand
  cases hd : m.program.get? s.ip with
  | none => rfl
  | some d =>
    have hlt : s.ip < m.program.size := (Array.getElem?_eq_some_iff.1 hd).1
    have hadd : add s.ip 1 = .ok (s.ip + 1) := add_eq (by unfold wordBound; omega)
    rw [hadd]

theorem index_agrees (hsize : m.program.size ≤ 2 ^ (63 : Nat)) (s : State) : Agrees (index m) m.index s := by
  refine .bind (operand_agrees hsize s) fun d t _ => ?_
  refine .bind (.lift _ t) fun n u _ => ?_
  split
  · exact .pure _ u
  · exact .trap _ u

theorem lt_of_index {i : Nat} (h : m.index s = .ok i t) : i < 2 ^ (63 : Nat) := by
  obtain ⟨n, -, hn, rfl, -⟩ := Machine.index_eq_ok.1 h
  have hlt := n.toInt_lt
  omega

theorem binaryOperator_agrees (op : BinaryOp) (s : State) :
    Agrees (binaryOperator m (.binary op)) (m.binary op) s := by
  refine .bind (.lift _ s) fun right t _ => ?_
  refine .bind (.lift _ t) fun left u _ => ?_
  refine .bind (.computed (binary_eq op left right)) fun d v _ => ?_
  exact .lift _ v

theorem comparison_agrees (c : Comparison) (s : State) :
    Agrees (comparison m (.compare c)) (m.comparison c) s := by
  refine .bind (.lift _ s) fun right t _ => ?_
  refine .bind (.lift _ t) fun left u _ => ?_
  refine .bind (.computed (compare_eq (.inl rfl) left right)) fun holds v _ => ?_
  exact .lift _ v

theorem chainLink_agrees (c : Comparison) (s : State) :
    Agrees (chainLink m (.chain c)) (m.chainLink c) s := by
  refine .bind (.lift _ s) fun right t _ => ?_
  refine .bind (.lift _ t) fun left u _ => ?_
  refine .bind (.computed (compare_eq (.inr rfl) left right)) fun holds v _ => ?_
  refine .bind (.lift _ v) fun before w _ => ?_
  exact .bind (.lift _ w) fun _ w' _ => .lift _ w'

theorem assign_agrees (hscope : s.scope < s.store.size) : Agrees (assign m) m.assign s := by
  refine .bind (.lift _ s) fun d t hd => ?_
  refine .bind (.lift _ t) fun n u hn => ?_
  refine .bind (.lift _ u) fun i w hi => ?_
  refine .bind (.lift _ w) fun v w' hv => ?_
  obtain ⟨_, -, rfl⟩ := Machine.pop_eq_ok.1 hd
  obtain ⟨-, rfl⟩ := Machine.asInteger_eq_ok.1 hn
  obtain ⟨hrange, rfl, rfl⟩ := Machine.slotIndex_eq_ok.1 hi
  obtain ⟨_, -, rfl⟩ := Machine.pop_eq_ok.1 hv
  have hword : n.toInt.toNat + 1 < wordBound := by
    have hlt := n.toInt_lt
    unfold wordBound
    omega
  show Agrees (Guarded.reach s.scope >>= _) _ _
  refine .reach hscope ?_
  exact .defined (set_eq hword hscope) rfl

theorem accessGlobal_agrees (hsize : m.program.size ≤ 2 ^ (63 : Nat)) (hglobal : globalScope < s.store.size) :
    Agrees (accessGlobal m) m.accessGlobal s := by
  refine .bind (index_agrees hsize s) fun i t hi => ?_
  refine .bind (operand_agrees hsize t) fun d u hd => ?_
  obtain ⟨_, -, -, -, rfl⟩ := Machine.index_eq_ok.1 hi
  obtain ⟨-, rfl⟩ := Machine.operand_eq_ok.1 hd
  refine .reach hglobal (.get ?_)
  exact .bind (.lift _ _) fun v t _ => .lift _ t

theorem accessLocal_agrees (hsize : m.program.size ≤ 2 ^ (63 : Nat)) (hscope : s.scope < s.store.size) :
    Agrees (accessLocal m) m.accessLocal s := by
  refine .bind (index_agrees hsize s) fun i t hi => ?_
  obtain ⟨_, -, -, -, rfl⟩ := Machine.index_eq_ok.1 hi
  refine .get (.reach hscope ?_)
  exact .bind (.lift _ _) fun v t _ => .lift _ t

theorem accessLevel_agrees (hsize : m.program.size ≤ 2 ^ (63 : Nat)) (hscope : s.scope < s.store.size) :
    Agrees (accessLevel m) m.accessLevel s := by
  refine .bind (index_agrees hsize s) fun level t hlevel => ?_
  refine .bind (index_agrees hsize t) fun i u hi => ?_
  obtain ⟨_, -, -, -, rfl⟩ := Machine.index_eq_ok.1 hlevel
  obtain ⟨_, -, -, -, rfl⟩ := Machine.index_eq_ok.1 hi
  refine .get (.reach hscope ?_)
  exact .bind (.lift _ _) fun v t _ => .lift _ t

theorem unload_agrees (hsize : m.program.size ≤ 2 ^ (63 : Nat)) (hglobal : globalScope < s.store.size) :
    Agrees (unload m) m.unload s := by
  refine .bind (index_agrees hsize s) fun i t hi => ?_
  obtain ⟨_, -, -, -, rfl⟩ := Machine.index_eq_ok.1 hi
  exact .reach hglobal rfl

theorem call_agrees (hsize : m.program.size ≤ 2 ^ (63 : Nat)) (kind : CallKind)
    (hcallee : ∀ f, .function f ∈ s.stack.items → f.scope < s.store.size) :
    Agrees (call m kind) (m.call kind) s := by
  refine .bind (index_agrees hsize s) fun count t hcount => ?_
  have hlt := lt_of_index hcount
  have ht : t.stack = s.stack ∧ t.store = s.store := by
    obtain ⟨_, -, -, -, rfl⟩ := Machine.index_eq_ok.1 hcount
    exact ⟨rfl, rfl⟩
  refine .bind (.lift _ t) fun arguments u harguments => ?_
  obtain ⟨-, rfl, hu⟩ := Machine.popArguments_eq_ok.1 harguments
  refine .bind (.lift _ u) fun f v hf => ?_
  obtain ⟨rest, hrest, hv⟩ := Machine.callee_eq_ok.1 hf
  have hdrop : t.stack.drop count = rest.push (.function f) := by rw [← hrest, hu]
  have hitems : .function f ∈ (t.stack.drop count).items := by
    rw [hdrop]
    exact List.mem_cons_self
  have hscope : f.scope < v.store.size := by
    rw [hv, hu]
    show f.scope < t.store.size
    rw [ht.2]
    exact hcallee f (ht.1 ▸ List.mem_of_mem_drop hitems)
  have hlength : (t.stack.take count).length < 2 ^ (63 : Nat) :=
    Nat.lt_of_le_of_lt (List.length_take_le _ _) hlt
  refine .reach hscope ?_
  rw [activation_eq hsize f hlength]
  cases hsig : m.program.signature? f.address with
  | none => exact .trap _ _
  | some sig =>
    show Agrees (Guarded.computed (trapped _) >>= _) (Machine.computed _ >>= _) v
    cases hslots : Machine.bindArguments sig (t.stack.take count) with
    | error e => exact .trap _ _
    | ok slots =>
      show Agrees (if kind = .tail ∧ v.callDepth ≠ 0 then _ else _)
        (if kind = .tail ∧ v.callDepth ≠ 0 then _ else _) v
      split
      · rfl
      · exact .bind (.lift _ _) fun _ w _ => rfl

/-- The frames that an instruction can reach are there. -/
structure Grounded (s : State) : Prop where
  scope : s.scope < s.store.size
  global : globalScope < s.store.size
  callee : ∀ f, .function f ∈ s.stack.items → f.scope < s.store.size

theorem execute_agrees (hsize : m.program.size ≤ 2 ^ (63 : Nat)) (h : Grounded s) (op : Opcode) :
    Agrees (execute m op) (m.execute op) s := by
  cases op with
  | binary op => exact .ignore (binaryOperator_agrees op s) none
  | compare c => exact .ignore (comparison_agrees c s) none
  | chain c => exact .ignore (chainLink_agrees c s) none
  | constant =>
    refine .bind (operand_agrees hsize s) fun d t _ => ?_
    exact .ignore (.lift _ t) none
  | call kind => exact .bind (call_agrees hsize kind h.callee) fun e t _ => .pure _ t
  | function =>
    refine .bind (index_agrees hsize s) fun a t _ => ?_
    exact .ignore (.lift _ t) none
  | jump =>
    refine .bind (index_agrees hsize s) fun a t _ => ?_
    exact .ignore (.lift _ t) none
  | jumpIf condition =>
    refine .bind (index_agrees hsize s) fun a t _ => ?_
    refine .bind (.lift _ t) fun d u _ => ?_
    dsimp only
    split
    · exact .ignore (.lift _ u) none
    · exact .pure none u
  | assignment => exact .ignore (assign_agrees h.scope) none
  | accessGlobal => exact .ignore (accessGlobal_agrees hsize h.global) none
  | accessLocal => exact .ignore (accessLocal_agrees hsize h.scope) none
  | accessSemi => exact .ignore (accessLevel_agrees hsize h.scope) none
  | unload => exact .ignore (unload_agrees hsize h.global) none
  | nothing | halt | not | negate | factorial | ret | duplicate | discard | swap | emptyArray | emptyList
  | reserved => rfl

theorem warnings_eq (op : Opcode) (warned : Bool) (a : Nat) : warnings op warned (a + 1) =
    .ok (if (op == .emptyArray && !warned) = true then [.deprecated a] else []) := by
  unfold warnings
  rw [sub_eq (Nat.le_add_left 1 a), Nat.add_sub_cancel]
  split <;> rfl

theorem announce_eq (h : s.ip < 2 ^ (63 : Nat)) (op : Opcode) :
    announce op s = .ok (Machine.announce op s) := by
  have hadd : add s.ip 1 = .ok (s.ip + 1) := add_eq (by unfold wordBound; omega)
  unfold announce
  rw [hadd]
  show (warnings op s.warned (s.ip + 1) >>= _) = _
  rw [warnings_eq]
  rfl

theorem lt_of_fetch {i : Instruction} (h : m.fetch s.ip = .ok i) : s.ip < m.program.size := by
  unfold Machine.fetch at h
  split at h
  · next hi => exact (Array.getElem?_eq_some_iff.1 hi).1
  · cases h
  · cases h

theorem step_eq (hsize : m.program.size ≤ 2 ^ (63 : Nat)) (h : Grounded s) : step m s = .ok (m.step s) := by
  unfold step Machine.step
  split
  · rfl
  cases hi : m.fetch s.ip with
  | error e => rfl
  | ok i =>
  dsimp only
  cases i.opcode? with
  | none => rfl
  | some op =>
    have hannounced : Grounded (Machine.announce op s).1 := ⟨h.scope, h.global, h.callee⟩
    have hexecute : execute m op (Machine.announce op s).1 = lift (m.execute op) (Machine.announce op s).1 :=
      execute_agrees hsize hannounced op
    dsimp only
    rw [announce_eq (Nat.lt_of_lt_of_le (lt_of_fetch hi) hsize)]
    generalize Machine.announce op s = announced at hexecute ⊢
    obtain ⟨t, events⟩ := announced
    dsimp only [bind, Except.bind] at hexecute ⊢
    rw [hexecute, lift]
    cases m.execute op t <;> rfl

end Guarded

/-! ### Reachable states -/

/-- A datum that names frames among the first `n` only. -/
def Datum.Placed (n : Nat) : Datum → Prop
  | .function f => f.scope < n
  | .scope id => id < n
  | _ => True

theorem Datum.lasting_placed : Lasting Placed where
  mono {n k d} h hnk := by
    cases d with
    | function f => exact Nat.lt_of_lt_of_le h hnk
    | scope id => exact Nat.lt_of_lt_of_le h hnk
    | null | integer | real | instruction | list => trivial
  function := Iff.rfl
  list _ _ := trivial
  plain {d} h n := by
    cases d with
    | integer | real | list => trivial
    | null | instruction | function | scope => exact h.elim

/-- The frames that the literals of a program and the data in the slots name are there, and so is the global
one. -/
structure Store.Supports (store : Store) (p : Program) : Prop where
  global : globalScope < store.size
  literals : ∀ d ∈ p.toList, d.Throughout (Datum.Placed store.size)
  slots : ∀ {id i d}, store.slot id i = .ok d → d.Throughout (Datum.Placed store.size)

namespace Machine

variable {m : Machine} {s : State} {store : Store} {p : Program} {limits : Limits}

theorem ReachableFrom.placed (hstore : store.Supports m.program)
    (hs : m.ReachableFrom (.start store) s) :
    Housed Datum.Placed s ∧ store.size ≤ s.store.size := by
  have hstart : Housed Datum.Placed (.start store) := {
    scope := hstore.global
    saved := fun _ hf => by cases hf
    stack := fun _ hd => by cases hd
    slots := hstore.slots }
  exact hs.housed Datum.lasting_placed hstart hstore.literals

/-- No step meets a defect, whatever the program, the limits and the steps before: each of them goes on, halts
or meets a fault as it does without words. The frames that a state names have a chain. -/
theorem step_defined (hsize : p.size ≤ 2 ^ (63 : Nat) - 1) (hstore : store.Supports p)
    (hs : (Machine.mk p limits).ReachableFrom (.start store) s) :
    Guarded.step ⟨p, limits⟩ s = .ok ((Machine.mk p limits).step s) ∧
    ∀ id, s.Names id ∨ s.Holds (.scope id) →
      s.store.chain id ≠ [] ∧ Guarded.depth s.store id = .ok (s.store.depth id) := by
  obtain ⟨h, hle⟩ := ReachableFrom.placed (m := ⟨p, limits⟩) hstore hs
  have hgrounded : Guarded.Grounded s := {
    scope := h.scope
    global := Nat.lt_of_lt_of_le hstore.global hle
    callee := fun f hf => h.stack _ hf _ .self }
  have hbound : p.size ≤ 2 ^ (63 : Nat) := by omega
  refine ⟨Guarded.step_eq hbound hgrounded, ?_⟩
  intro id hid
  have hlt : id < s.store.size := by
    rcases hid with hid | hid
    · exact h.names Datum.lasting_placed hid
    · exact h.holds hid
  obtain ⟨f, hf⟩ := Store.exists_frame? hlt
  have hne : s.store.chain id ≠ [] := List.ne_nil_of_mem (Store.mem_chain_self hf)
  exact ⟨hne, Guarded.sub_eq (List.length_pos_iff.2 hne)⟩

/-- A function with the last of all addresses, made in a frame of its own, is called. -/
def lastAddress : Program :=
  ((Builder.empty.constant (.function ⟨18446744073709551615, 1⟩)).opWith (.call .plain) 0).build

theorem step_defined_lastAddress :
    ∃ s, (Machine.mk lastAddress .standard).ReachableFrom (.start Store.empty.addRoot.addRoot) s ∧
      Guarded.step ⟨lastAddress, .standard⟩ s = .ok ((Machine.mk lastAddress .standard).step s) ∧
      ((Machine.mk lastAddress .standard).step s).status =
        .faulted ⟨.malformedHeader 18446744073709551615, 2, some (.bare (.call .plain))⟩ ∧
      Guarded.depth s.store 1 = .ok 0 := by
  have hsupports : (Store.empty.addRoot.addRoot).Supports lastAddress := {
    global := by decide
    literals := by
      intro d hd
      have hd' : d ∈ [.instruction (.bare .constant), .function ⟨18446744073709551615, 1⟩,
        .instruction (.bare (.call .plain)), .integer 0] := hd
      simp only [List.mem_cons, List.not_mem_nil, or_false] at hd'
      rcases hd' with rfl | rfl | rfl | rfl
      · exact .of_self trivial (by simp)
      · exact .of_self (show 1 < 2 by decide) (by simp)
      · exact .of_self trivial (by simp)
      · exact .of_self trivial (by simp)
    slots := by
      intro id i d hd
      rcases Store.slot_add hd with hd | hd
      · cases hd
      rcases Store.slot_add hd with hd | hd
      · cases hd
      obtain ⟨f, hf, -⟩ := Store.slot_eq_ok.1 hd
      cases hf }
  have hs : (Machine.mk lastAddress .standard).ReachableFrom (.start Store.empty.addRoot.addRoot)
      ((Machine.mk lastAddress .standard).after 1 (.start Store.empty.addRoot.addRoot)) := ⟨1, rfl⟩
  obtain ⟨hstep, hchain⟩ := step_defined (by decide) hsupports hs
  have hstack : .function ⟨18446744073709551615, 1⟩ ∈ ((Machine.mk lastAddress .standard).after 1
      (.start Store.empty.addRoot.addRoot)).stack.items := by decide +kernel
  have hdepth := (hchain 1 (.inl (.captured (.stack hstack .self)))).2
  exact ⟨_, hs, hstep, by decide +kernel, hdepth.trans (congrArg Except.ok (by decide +kernel))⟩

end Machine

end StackMachine
