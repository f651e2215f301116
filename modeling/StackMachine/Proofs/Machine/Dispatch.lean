import StackMachine.Proofs.Arithmetic.Integers
import StackMachine.Proofs.Arithmetic.Operands
import StackMachine.Proofs.Machine.Faults

/-!
# What is not supported

Here an unsupported instruction is a mnemonic and nothing else, and three places have to agree about which
these are: the table of the reserved opcodes, the choice of an action by the opcode, and the operators, which
are told apart by the opcode once more and refuse all opcodes that have no case of their own. These steps are
those of `Machine.step` (`step_eq`), so that an operator never gets an opcode that it refuses. What a step can
fail with is known from what stands at the instruction pointer (`failing_of_step`). From this it follows which
instructions are not supported and which are not known (`unsupported_iff_reserved`).
-/

namespace StackMachine

namespace Opcode

theorem ofId?_eq_none_iff {id : UInt32} : ofId? id = none ↔ ∀ op ∈ all, op.id ≠ id := by
  simp [ofId?]

theorem isReserved_iff {op : Opcode} : op.isReserved = true ↔ ∃ r, op = .reserved r := by
  cases op <;> simp [isReserved]

end Opcode

/-- Why an instruction was not carried out. -/
inductive Cause where
  | trap (t : Trap)
  | unsupported (mnemonic : String)
deriving DecidableEq, Repr

/-- A reserved opcode is forgotten but for its mnemonic. -/
def Cause.ofTrap : Trap → Cause
  | .unsupported r => .unsupported r.mnemonic
  | t => .trap t

def Status.cause? : Status → Option Cause
  | .faulted f => some (.ofTrap f.trap)
  | .running | .halted => none

namespace Dispatch

open Machine (announced Fits)

variable {α β : Type}

/-! ### Operators -/

def named : Except Trap α → Except Cause α
  | .ok a => .ok a
  | .error t => .error (.ofTrap t)

/-- A truth value as a number of the kind of the operands. -/
def logical (truth : Bool) : Operands → Datum
  | .integers _ _ => .integer (if truth then 1 else 0)
  | .reals _ _ => .real (if truth then 1 else 0)

/-- The cases of the operators, by the opcode and what the operands have been brought to. -/
def calculate (op : Opcode) (left right : Datum) (operands : Operands) : Except Cause Datum :=
  match op, operands with
  | .binary .and, _ => .ok (logical (left.truthy && right.truthy) operands)
  | .binary .or, _ => .ok (logical (left.truthy || right.truthy) operands)
  | .binary .add, .integers a b => named (fitting op (Integer.ofInt? (a.toInt + b.toInt)))
  | .binary .sub, .integers a b => named (fitting op (Integer.ofInt? (a.toInt - b.toInt)))
  | .binary .mul, .integers a b => named (fitting op (Integer.ofInt? (a.toInt * b.toInt)))
  | .binary .add, .reals x y => .ok (.real (x + y))
  | .binary .sub, .reals x y => .ok (.real (x - y))
  | .binary .mul, .reals x y => .ok (.real (x * y))
  | .binary .div, .integers a b =>
    if b = 0 then .error (.trap .divisionByZero)
    else named (fitting op (Integer.ofInt? (a.toInt.tdiv b.toInt)))
  | .binary .mod, .integers a b =>
    if b = 0 then .error (.trap .divisionByZero) else .ok (.integer (a % b))
  | .binary .div, .reals x y => if y == 0 then .error (.trap .divisionByZero) else .ok (.real (x / y))
  | .binary .mod, .reals x y =>
    if y == 0 then .error (.trap .divisionByZero) else .ok (.real (Binary64.remainder x y))
  | .binary .pow, .integers a b =>
    if 0 ≤ b.toInt then named (fitting op (Integer.pow? a b.toInt.toNat))
    else if a = 0 then .error (.trap .divisionByZero)
    else .ok (.real (Binary64.ofInt a.toInt ^ Binary64.ofInt b.toInt))
  | .binary .pow, .reals x y => .ok (.real (x ^ y))
  | _, _ => .error (.unsupported op.mnemonic)

def binary (op : Opcode) (left right : Datum) : Except Cause Datum := do
  calculate op left right (← named (numericOperands op left right))

def compare (op : Opcode) (left right : Datum) : Except Cause Bool := do
  let order := (← named (numericOperands op left right)).ordering
  match op with
  | .compare .less | .chain .less => .ok (order == some .lt)
  | .compare .more | .chain .more => .ok (order == some .gt)
  | .compare .lessEq | .chain .lessEq => .ok (order == some .lt || order == some .eq)
  | .compare .moreEq | .chain .moreEq => .ok (order == some .gt || order == some .eq)
  | .compare .equal | .chain .equal => .ok (order == some .eq)
  | .compare .notEqual | .chain .notEqual => .ok (order != some .eq)
  | _ => .error (.unsupported op.mnemonic)

/-! ### Instructions and steps -/

abbrev Action := EStateM Cause State

/-- An action in which nothing is unsupported but what its trap says. -/
def lift (x : StackMachine.Action α) : Action α := fun s =>
  match x s with
  | .ok a t => .ok a t
  | .error e t => .error (.ofTrap e) t

def computed : Except Cause α → Action α
  | .ok a => pure a
  | .error c => throw c

variable (m : Machine)

def binaryOperator (op : Opcode) : Action Unit := do
  let right ← lift Machine.pop
  let left ← lift Machine.pop
  lift (m.push (← computed (binary op left right)))

def comparison (op : Opcode) : Action Unit := do
  let right ← lift Machine.pop
  let left ← lift Machine.pop
  lift (m.push (.ofBool (← computed (compare op left right))))

def chainLink (op : Opcode) : Action Unit := do
  let right ← lift Machine.pop
  let left ← lift Machine.pop
  let holds ← computed (compare op left right)
  let before ← lift Machine.pop
  lift (m.push (.ofBool (before.truthy && holds)))
  lift (m.push right)

def execute (op : Opcode) : Action (Option Event) :=
  match op with
  | .binary _ => do
    binaryOperator m op
    return none
  | .compare _ => do
    comparison m op
    return none
  | .chain _ => do
    chainLink m op
    return none
  | .reserved _ => throw (.unsupported op.mnemonic)
  | op => lift (m.execute op)

/-- What a step leaves, and the cause if the instruction was not carried out. -/
def step (s : State) : State × Option Cause :=
  if s.halted then (s, none)
  else match m.fetch s.ip with
    | .error t => (s, some (.ofTrap t))
    | .ok i => match i.opcode? with
      | none => (s, some (.trap (.unknownOpcode i.id)))
      | some op => match execute m op (announced op s) with
        | .ok _ t => (t, none)
        | .error c t => (t, some c)

/-! ### The cases of the operators -/

variable {m} {s t : State} {left right : Datum} {store : Store}

theorem calculate_integers (op : BinaryOp) (a b : Int64) :
    calculate (.binary op) (.integer a) (.integer b) (.integers a b) = named (op.onIntegers a b) := by
  cases op with
  | add | sub | mul | and | or => rfl
  | div =>
    rw [BinaryOp.onIntegers, apply_ite named]
    rfl
  | mod =>
    by_cases hb : b = 0
    · subst hb
      rfl
    · have hmod : BinaryOp.mod.onIntegers a b = .ok (.integer (a % b)) := BinaryOp.apply_mod a hb
      rw [hmod]
      exact if_neg hb
  | pow =>
    rw [BinaryOp.onIntegers, apply_ite named, apply_ite named]
    rfl

theorem calculate_reals {x y : Float} (op : BinaryOp) (hleft : left.toReal = .ok x)
    (hright : right.toReal = .ok y) :
    calculate (.binary op) left right (.reals x y) = named (op.onReals x y) := by
  cases op with
  | add | sub | mul | pow => rfl
  | div | mod =>
    rw [BinaryOp.onReals, apply_ite named]
    rfl
  | and | or =>
    rw [BinaryOp.onReals, ← truthy_eq_bne_zero hleft, ← truthy_eq_bne_zero hright]
    rfl

theorem binary_eq (op : BinaryOp) (left right : Datum) :
    binary (.binary op) left right = named (op.apply left right) := by
  have hof := Operands.of left right
  unfold binary BinaryOp.apply numericOperands
  generalize Operands.of? left right = operands at hof ⊢
  cases hof with
  | refused => rfl
  | integers a b => exact calculate_integers op a b
  | reals _ hleft hright => exact calculate_reals op hleft hright

theorem compare_eq {c : Comparison} {op : Opcode} (hop : op = .compare c ∨ op = .chain c)
    (left right : Datum) : compare op left right = named (c.apply op left right) := by
  unfold compare Comparison.apply
  cases numericOperands op left right with
  | error e => rfl
  | ok operands => rcases hop with rfl | rfl <;> cases c <;> rfl

theorem lift_bind (x : StackMachine.Action α) (f : α → StackMachine.Action β) :
    lift (x >>= f) = lift x >>= fun a => lift (f a) := by
  funext s
  show lift (EStateM.bind x f) s = EStateM.bind (lift x) _ s
  unfold lift EStateM.bind
  dsimp only
  cases x s <;> rfl

theorem lift_computed (r : Except Trap α) : lift (Machine.computed r) = computed (named r) := by
  cases r <;> rfl

theorem binaryOperator_eq (op : BinaryOp) : binaryOperator m (.binary op) = lift (m.binary op) := by
  unfold binaryOperator Machine.binary
  simp only [lift_bind, lift_computed, binary_eq]

theorem comparison_eq (c : Comparison) : comparison m (.compare c) = lift (m.comparison c) := by
  unfold comparison Machine.comparison
  simp only [lift_bind, lift_computed, compare_eq (.inl rfl)]

theorem chainLink_eq (c : Comparison) : chainLink m (.chain c) = lift (m.chainLink c) := by
  unfold chainLink Machine.chainLink
  simp only [lift_bind, lift_computed, compare_eq (.inr rfl)]

theorem execute_eq (m : Machine) (op : Opcode) : execute m op = lift (m.execute op) := by
  cases op with
  | binary op =>
    show (binaryOperator m (.binary op) >>= fun _ => pure none) = lift (m.binary op >>= fun _ => pure none)
    rw [lift_bind, binaryOperator_eq]
    rfl
  | compare c =>
    show (comparison m (.compare c) >>= fun _ => pure none) = lift (m.comparison c >>= fun _ => pure none)
    rw [lift_bind, comparison_eq]
    rfl
  | chain c =>
    show (chainLink m (.chain c) >>= fun _ => pure none) = lift (m.chainLink c >>= fun _ => pure none)
    rw [lift_bind, chainLink_eq]
    rfl
  | nothing | constant | not | negate | factorial | call | ret | function | jump | jumpIf | duplicate | discard
  | swap | assignment | accessGlobal | accessLocal | accessSemi | unload | emptyArray | emptyList | halt
  | reserved => rfl

/-- The steps are those of the machine, which has no operators that refuse an opcode. -/
theorem step_eq (m : Machine) (s : State) : step m s = (m.next s, (m.step s).status.cause?) := by
  unfold step Machine.next Machine.step
  cases s.halted with
  | true => rfl
  | false =>
  cases m.fetch s.ip with
  | error t => rfl
  | ok i =>
  simp only [Bool.false_eq_true, ↓reduceIte]
  cases i.opcode? with
  | none => rfl
  | some op =>
    dsimp only
    rw [execute_eq, lift]
    have hannounced : (Machine.announce op s).1 = announced op s := rfl
    rw [hannounced]
    cases m.execute op (announced op s) with
    | ok r t =>
      dsimp only
      split <;> rfl
    | error e t => rfl

/-! ### What a step can fail with -/

/-- A cause for which a step from `s` can fail, by what stands at the instruction pointer. -/
inductive Failing (m : Machine) (s : State) : Cause → Prop
  | outside : m.program.get? s.ip = none → Failing m s (.trap (.outsideProgram s.ip m.program.size))
  | noInstruction {d : Datum} : m.program.get? s.ip = some d → (∀ i, d ≠ .instruction i) →
    Failing m s (.trap (.notAnInstruction d.tag))
  | unknown {i : Instruction} : m.program.get? s.ip = some (.instruction i) → i.opcode? = none →
    Failing m s (.trap (.unknownOpcode i.id))
  | raised {op : Opcode} {e : Trap} : m.program.opcodeAt? s.ip = some op → op.CanRaise e →
    Failing m s (.ofTrap e)

/-- Without a known opcode a step fails in fetching, and changes nothing. -/
theorem failing_of_opcodeAt?_eq_none {c : Cause} (hop : m.program.opcodeAt? s.ip = none)
    (h : (step m s).2 = some c) : Failing m s c := by
  unfold step at h
  split at h
  · cases h
  unfold Machine.fetch at h
  cases hd : m.program.get? s.ip with
  | none =>
    rw [hd] at h
    cases h
    exact .outside hd
  | some d =>
    rw [hd] at h
    cases d with
    | instruction i =>
      have hi : i.opcode? = none := by
        unfold Program.opcodeAt? at hop
        rw [hd] at hop
        exact hop
      simp only [hi] at h
      cases h
      exact .unknown hd hi
    | null | integer | real | function | list | scope =>
      cases h
      exact .noInstruction hd nofun

theorem failing_of_step {c : Cause} (hfit : Fits m s) (h : (step m s).2 = some c) : Failing m s c := by
  cases hop : m.program.opcodeAt? s.ip with
  | none => exact failing_of_opcodeAt?_eq_none hop h
  | some op =>
    rw [step_eq] at h
    cases hstatus : (m.step s).status with
    | faulted f =>
      rw [hstatus] at h
      cases h
      exact .raised hop (Machine.trapped_of_faulted hfit hstatus hop).raised
    | running | halted =>
      rw [hstatus] at h
      cases h

theorem step_of_unknown {i : Instruction} (hs : s.halted = false)
    (hi : m.program.get? s.ip = some (.instruction i)) (hop : i.opcode? = none) :
    step m s = (s, some (.trap (.unknownOpcode i.id))) := by
  simp only [step, Machine.fetch, hs, hi, hop, Bool.false_eq_true, ↓reduceIte]

theorem step_of_reserved {r : Reserved} (hs : s.halted = false)
    (hop : m.program.opcodeAt? s.ip = some (.reserved r)) :
    step m s = ({ s with ip := s.ip + 1 }, some (.unsupported r.mnemonic)) := by
  obtain ⟨i, hi, hop⟩ := Program.opcodeAt?_eq_some_iff.1 hop
  have hannounced : announced (.reserved r) s = { s with ip := s.ip + 1 } :=
    Machine.announced_of_ne nofun
  simp only [step, Machine.fetch, hs, hi, hop, Bool.false_eq_true, ↓reduceIte, hannounced]
  rfl

theorem ofTrap_eq_unsupported {e : Trap} {mnemonic : String} (h : Cause.ofTrap e = .unsupported mnemonic) :
    ∃ r, e = .unsupported r ∧ r.mnemonic = mnemonic := by
  cases e with
  | unsupported r => exact ⟨r, rfl, Cause.unsupported.inj h⟩
  | _ => cases h

theorem unsupported_iff {mnemonic : String} (hfit : Fits m s) (hs : s.halted = false) :
    (step m s).2 = some (.unsupported mnemonic) ↔
      ∃ r : Reserved, m.program.opcodeAt? s.ip = some (.reserved r) ∧ r.mnemonic = mnemonic := by
  constructor
  · intro h
    have hfailing := failing_of_step hfit h
    generalize hc : Cause.unsupported mnemonic = c at hfailing
    cases hfailing with
    | outside | noInstruction | unknown => cases hc
    | raised hop hraise =>
      obtain ⟨r, rfl, rfl⟩ := ofTrap_eq_unsupported hc.symm
      exact ⟨r, hraise ▸ hop, rfl⟩
  · rintro ⟨r, hop, rfl⟩
    rw [step_of_reserved hs hop]

theorem unknownOpcode_iff {id : UInt32} (hfit : Fits m s) (hs : s.halted = false) :
    (step m s).2 = some (.trap (.unknownOpcode id)) ↔
      ∃ i, m.program.get? s.ip = some (.instruction i) ∧ i.opcode? = none ∧ i.id = id := by
  constructor
  · intro h
    have hfailing := failing_of_step hfit h
    generalize hc : Cause.trap (.unknownOpcode id) = c at hfailing
    cases hfailing with
    | outside | noInstruction => cases hc
    | unknown hi hop =>
      cases hc
      exact ⟨_, hi, hop, rfl⟩
    | @raised _ e _ hraise =>
      cases e with
      | unknownOpcode => exact hraise.elim
      | _ => cases hc
  · rintro ⟨i, hi, hop, rfl⟩
    rw [step_of_unknown hs hi hop]

theorem named_ne_unsupported {r : Except Trap α} (h : ∀ e, r = .error e → e.IsArithmetic)
    (mnemonic : String) : named r ≠ .error (.unsupported mnemonic) := by
  intro hr
  cases r with
  | ok a => cases hr
  | error e =>
    obtain ⟨r, rfl, -⟩ := ofTrap_eq_unsupported (Except.error.inj hr)
    exact h _ rfl

/-- A step from a reachable state fails as unsupported just if the instruction has a reserved opcode, with
its mnemonic, and with an unknown opcode just if the id of the instruction is in no entry of the table. -/
theorem unsupported_iff_reserved (hs : m.ReachableFrom (.start store) s) (hrun : s.halted = false) :
    step m s = (m.next s, (m.step s).status.cause?) ∧
    (∀ mnemonic, (step m s).2 = some (.unsupported mnemonic) ↔
      ∃ i op, m.program.get? s.ip = some (.instruction i) ∧ Opcode.ofId? i.id = some op ∧
        op.isReserved = true ∧ op.mnemonic = mnemonic) ∧
    (∀ mnemonic, (step m s).2 = some (.unsupported mnemonic) → (step m s).1 = { s with ip := s.ip + 1 }) ∧
    (∀ id, (step m s).2 = some (.trap (.unknownOpcode id)) ↔
      ∃ i, m.program.get? s.ip = some (.instruction i) ∧ i.id = id ∧ ∀ op ∈ Opcode.all, op.id ≠ id) ∧
    (∀ (op : BinaryOp) (left right : Datum) (mnemonic : String),
      binary (.binary op) left right ≠ .error (.unsupported mnemonic)) ∧
    ∀ (c : Comparison) (op : Opcode), op = .compare c ∨ op = .chain c →
      ∀ (left right : Datum) (mnemonic : String), compare op left right ≠ .error (.unsupported mnemonic) := by
  have hfit := hs.fits
  refine ⟨step_eq m s, ?_, ?_, ?_, ?_, ?_⟩
  · intro mnemonic
    rw [unsupported_iff hfit hrun]
    constructor
    · rintro ⟨r, hop, rfl⟩
      obtain ⟨i, hi, hop⟩ := Program.opcodeAt?_eq_some_iff.1 hop
      exact ⟨i, _, hi, hop, rfl, rfl⟩
    · rintro ⟨i, op, hi, hop, hreserved, rfl⟩
      obtain ⟨r, rfl⟩ := Opcode.isReserved_iff.1 hreserved
      exact ⟨r, Program.opcodeAt?_eq_some_iff.2 ⟨i, hi, hop⟩, rfl⟩
  · intro mnemonic h
    obtain ⟨r, hop, -⟩ := (unsupported_iff hfit hrun).1 h
    rw [step_of_reserved hrun hop]
  · intro id
    rw [unknownOpcode_iff hfit hrun]
    constructor
    · rintro ⟨i, hi, hop, rfl⟩
      exact ⟨i, hi, rfl, Opcode.ofId?_eq_none_iff.1 hop⟩
    · rintro ⟨i, hi, rfl, htable⟩
      exact ⟨i, hi, Opcode.ofId?_eq_none_iff.2 htable, rfl⟩
  · intro op left right
    rw [binary_eq]
    refine named_ne_unsupported fun e he => ?_
    have hcomputes := op.computes_apply left right
    rw [he] at hcomputes
    cases hcomputes with
    | error harithmetic => exact harithmetic
  · intro c op hop left right
    rw [compare_eq hop]
    exact named_ne_unsupported fun _ => Comparison.isArithmetic_of_apply

/-- An addition without operands, a reserved instruction, and one whose id is of none. -/
def strangers : Machine where
  program := (((Builder.empty.op (.binary .add)).op (.reserved .constantString)).datum
    (.instruction ⟨10, 0, "?"⟩)).build
  limits := .standard

theorem unsupported_iff_reserved_strangers :
    ∃ s, strangers.ReachableFrom (.start Store.empty.addRoot) s ∧ s.ip = 1 ∧
      (step strangers s).2 = some (.unsupported "CONSTANT_STRING") ∧
      (step strangers s).1 = { s with ip := 2 } ∧
      (step strangers (strangers.next s)).2 = some (.trap (.unknownOpcode 10)) := by
  have hs : strangers.ReachableFrom (.start Store.empty.addRoot)
      (strangers.after 1 (.start Store.empty.addRoot)) := ⟨1, rfl⟩
  have ht : strangers.ReachableFrom (.start Store.empty.addRoot)
      (strangers.next (strangers.after 1 (.start Store.empty.addRoot))) := ⟨2, rfl⟩
  obtain ⟨-, hreserved, hstate, -⟩ := unsupported_iff_reserved hs (by decide +kernel)
  obtain ⟨-, -, -, hunknown, -⟩ := unsupported_iff_reserved ht (by decide +kernel)
  have hcause := (hreserved "CONSTANT_STRING").2 ⟨_, _, rfl, rfl, rfl, rfl⟩
  refine ⟨_, hs, rfl, hcause, hstate _ hcause, (hunknown 10).2 ⟨_, rfl, rfl, by decide⟩⟩

end Dispatch

end StackMachine
