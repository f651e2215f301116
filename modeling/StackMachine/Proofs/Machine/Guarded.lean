import StackMachine.Machine.Step

/-!
# The machine with operations that can be undefined

Numbers here are words of 64 bits, sums and differences of words need not exist, a list can be split and a
row be written only where it has a place, nothing is divided by zero, every frame that is named has a chain,
and operators are told apart by their opcode, where most opcodes are those of none. Where such an operation
has no result there is a `Defect`, which no program is meant to meet. Otherwise the steps are those of
`Machine.step`, traps included.
-/

namespace StackMachine.Guarded

-- powers are those of the core library, whatever else is imported
attribute [local instance (high)] instPowNat

/-- An operation has no result. -/
inductive Defect where
  /-- A sum is no word. -/
  | overflow
  /-- A difference is below zero. -/
  | underflow
  /-- A list ends before the place where it was to be split. -/
  | splitBeyondEnd
  /-- A row has no such place. -/
  | outOfBounds
  | zeroDivisor
  /-- A frame that was named is not there. -/
  | emptyChain
  /-- A case was left out. -/
  | leftOut
deriving DecidableEq, Repr

inductive Failure where
  | trap (t : Trap)
  | defect (d : Defect)
deriving Repr

variable {α : Type}

def trapped : Except Trap α → Except Failure α
  | .ok a => .ok a
  | .error t => .error (.trap t)

/-! ### Operations on words, lists and rows -/

def wordBound : Nat := 2 ^ (64 : Nat)

def add (a b : Nat) : Except Failure Nat :=
  if a + b < wordBound then .ok (a + b) else .error (.defect .overflow)

def add? (a b : Nat) : Option Nat :=
  if a + b < wordBound then some (a + b) else none

def sub (a b : Nat) : Except Failure Nat :=
  if b ≤ a then .ok (a - b) else .error (.defect .underflow)

/-- The remainder with the sign of the dividend. The least integer divided by `-1` leaves zero. -/
def remainder (a b : Int64) : Except Failure Int64 :=
  if b = 0 then .error (.defect .zeroDivisor) else .ok (a % b)

def splitOff (xs : List α) (n : Nat) : Except Failure (List α × List α) :=
  if n ≤ xs.length then .ok (xs.take n, xs.drop n) else .error (.defect .splitBeyondEnd)

def write (row : Array α) (i : Nat) (a : α) : Except Failure (Array α) :=
  if h : i < row.size then .ok (row.set i a) else .error (.defect .outOfBounds)

/-! ### Frames -/

/-- Fills up a row with unwritten slots, for the one at `i`. -/
def fillUp (slots : Array (Option Datum)) (i : Nat) : Except Failure (Array (Option Datum)) :=
  if slots.size ≤ i then do
    let size ← add i 1
    pure (slots ++ Array.replicate (size - slots.size) none)
  else pure slots

def define (f : Frame) (i : Nat) (v : Datum) : Except Failure Frame := do
  let slots ← write (← fillUp f.slots i) i (some v)
  pure { f with slots := slots }

def defineFrom (f : Frame) (i : Nat) : List Datum → Except Failure Frame
  | [] => pure f
  | v :: data => do defineFrom (← define f i v) (i + 1) data

def set (store : Store) (id : FrameId) (i : Nat) (v : Datum) : Except Failure Store :=
  match store.frame? (store.owner id i) with
  | some f => do
    let g ← define f i v
    pure (store.modify (store.owner id i) fun _ => g)
  | none => .error (.defect .emptyChain)

def depth (store : Store) (id : FrameId) : Except Failure Nat :=
  sub (store.chain id).length 1

/-! ### Operators -/

def binary (op : Opcode) (left right : Datum) : Except Failure Datum := do
  match op, ← trapped (numericOperands op left right) with
  | .binary .mod, .integers a b =>
    if b = 0 then .error (.trap .divisionByZero) else .ok (.integer (← remainder a b))
  | .binary op, .integers a b => trapped (op.onIntegers a b)
  | .binary op, .reals x y => trapped (op.onReals x y)
  | _, _ => .error (.defect .leftOut)

def compare (op : Opcode) (left right : Datum) : Except Failure Bool := do
  let operands ← trapped (numericOperands op left right)
  match op with
  | .compare c | .chain c => .ok (c.holds operands.ordering)
  | _ => .error (.defect .leftOut)

/-! ### Headers and arguments -/

/-- An integer in the header of the function at an address. -/
def headerField (p : Program) (address offset : Nat) : Except Failure Int64 :=
  match (add? address offset).bind p.get? with
  | some (.integer n) => .ok n
  | _ => .error (.trap (.malformedHeader address))

def header (p : Program) (address : Nat) : Except Failure (Program.Signature × Nat) := do
  let parameters ← headerField p address Program.parametersOffset
  if parameters.toInt < 0 then .error (.trap (.malformedHeader address))
  else
    let variadic ← headerField p address Program.variadicOffset
    if variadic ≠ 0 ∧ parameters = 0 then .error (.trap (.malformedHeader address))
    else match add? address Program.headerSize with
      | some entry => .ok (⟨parameters.toInt.toNat, variadic != 0⟩, entry)
      | none => .error (.defect .leftOut)

def bindArguments (sig : Program.Signature) (arguments : List Datum) : Except Failure (List Datum) :=
  if sig.variadic then do
    let fixed ← sub sig.parameters 1
    if arguments.length < fixed then .error (.trap (.tooFewArguments fixed arguments.length))
    else
      let (front, rest) ← splitOff arguments fixed
      .ok (front ++ [.list rest])
  else if arguments.length = sig.parameters then .ok arguments
  else .error (.trap (.argumentCount sig.parameters arguments.length))

/-- Where the body of a function starts, and the frame in which it runs with the arguments. -/
def activation (p : Program) (f : Closure) (arguments : List Datum) : Except Failure (Nat × Frame) := do
  let (sig, entry) ← header p f.address
  let slots ← bindArguments sig arguments
  let frame ← defineFrom ⟨#[], some f.scope, slots.isEmpty⟩ 0 slots
  pure (entry, frame)

/-! ### Actions -/

abbrev Action := EStateM Failure State

/-- An action that is defined everywhere. -/
def lift (x : StackMachine.Action α) : Action α := fun s =>
  match x s with
  | .ok a s => .ok a s
  | .error t s => .error (.trap t) s

def computed : Except Failure α → Action α
  | .ok a => pure a
  | .error e => throw e

/-- Every way outward starts at a frame that is there. -/
def reach (id : FrameId) : Action Unit := fun s =>
  if (s.store.chain id).isEmpty then .error (.defect .emptyChain) s else .ok () s

variable (m : Machine)

def operand : Action Datum := fun s =>
  match m.program.get? s.ip with
  | some d => match add s.ip 1 with
    | .ok ip => .ok d { s with ip := ip }
    | .error e => .error e s
  | none => .error (.trap .missingOperand) s

def index : Action Nat := do
  let n ← lift (Machine.asInteger (← operand m))
  if 0 ≤ n.toInt then pure n.toInt.toNat else throw (.trap (.invalidOperand n))

def binaryOperator (op : Opcode) : Action Unit := do
  let right ← lift Machine.pop
  let left ← lift Machine.pop
  lift (m.push (← computed (binary op left right)))

def comparison (op : Opcode) : Action Unit := do
  let right ← lift Machine.pop
  let left ← lift Machine.pop
  lift (m.push (.ofBool (← computed (compare op left right))))

def chainLink (op : Opcode) : Action Unit := do
  let right ← lift Machine.pop
  let left ← lift Machine.pop
  let holds ← computed (compare op left right)
  let before ← lift Machine.pop
  lift (m.push (.ofBool (before.truthy && holds)))
  lift (m.push right)

def assign : Action Unit := do
  let i ← lift (m.slotIndex (← lift (Machine.asInteger (← lift Machine.pop))))
  let v ← lift Machine.pop
  let s ← get
  reach s.scope
  let store ← computed (set s.store s.scope i v)
  modify fun s => { s with store := store }

def accessGlobal : Action Unit := do
  let i ← index m
  let _ ← operand m
  reach globalScope
  lift (m.push (← lift (Machine.found ((← get).store.get globalScope i))))

def accessLocal : Action Unit := do
  let i ← index m
  let s ← get
  reach s.scope
  lift (m.push (← lift (Machine.found (s.store.get s.scope i))))

def accessLevel : Action Unit := do
  let level ← index m
  let i ← index m
  let s ← get
  reach s.scope
  lift (m.push (← lift (Machine.found (s.store.getAt s.scope level i))))

def unload : Action Unit := do
  let i ← index m
  reach globalScope
  modify fun s => { s with store := s.store.unset globalScope i }

def enter (entry : Nat) (frame : Frame) : Action Unit := modify fun s =>
  { s with
    ip := entry
    scope := s.store.size
    store := s.store.add frame }

def call (kind : CallKind) : Action Event := do
  let count ← index m
  let arguments ← lift (Machine.popArguments count)
  let f ← lift Machine.callee
  reach f.scope
  let (entry, frame) ← computed (activation m.program f arguments)
  if kind = .tail ∧ (← get).callDepth ≠ 0 then
    enter entry frame
    pure (.tailCall f.address count)
  else
    lift m.saveCaller
    enter entry frame
    pure (.call f.address count (← get).callDepth)

def execute (op : Opcode) : Action (Option Event) := do
  match op with
  | .binary _ => binaryOperator m op
  | .compare _ => comparison m op
  | .chain _ => chainLink m op
  | .constant => lift (m.push (← operand m))
  | .call kind => return some (← call m kind)
  | .function =>
    let address ← index m
    lift (m.push (.function ⟨address, (← get).scope⟩))
  | .jump => lift (Machine.jump (← index m))
  | .jumpIf condition =>
    let target ← index m
    if (← lift Machine.pop).truthy = condition then lift (Machine.jump target)
  | .assignment => assign m
  | .accessGlobal => accessGlobal m
  | .accessLocal => accessLocal m
  | .accessSemi => accessLevel m
  | .unload => unload m
  | op => return ← lift (m.execute op)
  return none

/-! ### Steps -/

/-- The address of the deprecated instruction is found from the one behind it. -/
def warnings (op : Opcode) (warned : Bool) (ip : Nat) : Except Failure (List Event) :=
  if op == .emptyArray && !warned then do
    let address ← sub ip 1
    pure [.deprecated address]
  else pure []

def announce (op : Opcode) (s : State) : Except Failure (State × List Event) := do
  let ip ← add s.ip 1
  let events ← warnings op s.warned ip
  pure ({ s with ip := ip, warned := s.warned || op == .emptyArray },
    .execute s.ip op s.stack.height :: events)

def step (m : Machine) (s : State) : Except Failure Outcome := do
  if s.halted then .ok ⟨s, .halted, []⟩
  else match m.fetch s.ip with
    | .error t => .ok ⟨s, .faulted ⟨t, s.ip, none⟩, []⟩
    | .ok i => match i.opcode? with
      | none => .ok ⟨s, .faulted ⟨.unknownOpcode i.id, s.ip, some i⟩, []⟩
      | some op =>
        let address := s.ip
        let (s, announced) ← announce op s
        match execute m op s with
        | .ok reported s =>
          .ok ⟨s, if s.halted then .halted else .running, announced ++ reported.toList⟩
        | .error (.trap t) s => .ok ⟨s, .faulted ⟨t, address, some i⟩, announced⟩
        | .error (.defect d) _ => .error (.defect d)

end StackMachine.Guarded
