/-!
# The instruction set

Every instruction has an id, by which programs name it, and a mnemonic, by which messages do. Ids are
not dense, and some belong to reserved instructions: these are known by name and have no meaning.
-/

namespace StackMachine

/-- The operators on two numbers that give a number. -/
inductive BinaryOp where
  | add
  | sub
  | mul
  | div
  | mod
  | pow
  | and
  | or
deriving DecidableEq, Repr

/-- The comparisons of two numbers. -/
inductive Comparison where
  | less
  | more
  | lessEq
  | moreEq
  | equal
  | notEqual
deriving DecidableEq, Repr

/-- The ways to call a function. A tail call returns to where the running call would have. -/
inductive CallKind where
  | plain
  | uncached
  | tail
deriving DecidableEq, Repr

/-- The instructions that have a name and no meaning. -/
inductive Reserved where
  | jumpIfMacro
  | word
  | functionMacro
  | storeInCache
  | accessArrayElement
  | beginProtectedGlobalBlock
  | endProtectedGlobalBlock
  | declareSymbol
  | listExtractFirst
  | listExtractRest
  | listPrepend
  | listConcat
  | pushErrorStopgap
  | constantString
  | constantGlyph
deriving DecidableEq, Repr

inductive Opcode where
  | nothing
  | constant
  | binary (op : BinaryOp)
  | not
  | negate
  | factorial
  | compare (c : Comparison)
  /-- One link of a chain such as `a < b < c`. -/
  | chain (c : Comparison)
  | call (kind : CallKind)
  | ret
  | function
  | jump
  | jumpIf (condition : Bool)
  | duplicate
  | discard
  | swap
  | assignment
  | accessGlobal
  | accessLocal
  | accessSemi
  | unload
  /-- The deprecated form of `emptyList`. -/
  | emptyArray
  | emptyList
  | halt
  | reserved (r : Reserved)
deriving DecidableEq, Repr

namespace BinaryOp

def id : BinaryOp → UInt32
  | .add => 2
  | .sub => 3
  | .mul => 4
  | .div => 5
  | .mod => 6
  | .pow => 7
  | .and => 8
  | .or => 9

def mnemonic : BinaryOp → String
  | .add => "BIN_ADD"
  | .sub => "BIN_SUB"
  | .mul => "BIN_MUL"
  | .div => "BIN_DIV"
  | .mod => "BIN_MOD"
  | .pow => "BIN_POW"
  | .and => "BIN_AND"
  | .or => "BIN_OR"

end BinaryOp

namespace Comparison

def id : Comparison → UInt32
  | .less => 28
  | .more => 29
  | .lessEq => 30
  | .moreEq => 31
  | .equal => 33
  | .notEqual => 34

def chainId : Comparison → UInt32
  | .less => 35
  | .more => 36
  | .lessEq => 37
  | .moreEq => 38
  | .equal => 39
  | .notEqual => 40

/-- What the mnemonics of a comparison and of its chained form end in. -/
def suffix : Comparison → String
  | .less => "LESS"
  | .more => "MORE"
  | .lessEq => "L_EQ"
  | .moreEq => "M_EQ"
  | .equal => "EQUL"
  | .notEqual => "N_EQ"

def mnemonic (c : Comparison) : String :=
  "BIN_" ++ c.suffix

def chainMnemonic (c : Comparison) : String :=
  "CMP_" ++ c.suffix

end Comparison

namespace CallKind

def id : CallKind → UInt32
  | .plain => 15
  | .uncached => 54
  | .tail => 65

def mnemonic : CallKind → String
  | .plain => "ARG_LIST_END"
  | .uncached => "ARG_LIST_END_NO_CACHE"
  | .tail => "ARG_LIST_END_WITH_TCO"

end CallKind

namespace Reserved

def id : Reserved → UInt32
  | .jumpIfMacro => 14
  | .word => 16
  | .functionMacro => 20
  | .storeInCache => 41
  | .accessArrayElement => 53
  | .beginProtectedGlobalBlock => 57
  | .endProtectedGlobalBlock => 58
  | .declareSymbol => 59
  | .listExtractFirst => 61
  | .listExtractRest => 62
  | .listPrepend => 63
  | .listConcat => 64
  | .pushErrorStopgap => 66
  | .constantString => 67
  | .constantGlyph => 68

def mnemonic : Reserved → String
  | .jumpIfMacro => "JUMP_IF_MACRO"
  | .word => "WORD"
  | .functionMacro => "FUNCTION_MACRO"
  | .storeInCache => "STORE_IN_CACHE"
  | .accessArrayElement => "ACCESS_ARRAY_ELEMENT"
  | .beginProtectedGlobalBlock => "BEGIN_PROTECTED_GLOBAL_BLOCK"
  | .endProtectedGlobalBlock => "END_PROTECTED_GLOBAL_BLOCK"
  | .declareSymbol => "DECLARE_SYMBOL"
  | .listExtractFirst => "LIST_EXTRACT_FIRST"
  | .listExtractRest => "LIST_EXTRACT_REST"
  | .listPrepend => "LIST_PREPEND"
  | .listConcat => "LIST_CONCAT"
  | .pushErrorStopgap => "PUSH_ERROR_STOPGAP"
  | .constantString => "CONSTANT_STRING"
  | .constantGlyph => "CONSTANT_GLYPH"

end Reserved

namespace Opcode

def id : Opcode → UInt32
  | .nothing => 0
  | .constant => 1
  | .binary op => op.id
  | .not => 11
  | .negate => 12
  | .factorial => 13
  | .compare c => c.id
  | .chain c => c.chainId
  | .call kind => kind.id
  | .ret => 22
  | .function => 21
  | .jump => 23
  | .jumpIf true => 24
  | .jumpIf false => 25
  | .duplicate => 26
  | .discard => 27
  | .swap => 18
  | .assignment => 17
  | .accessGlobal => 44
  | .accessLocal => 45
  | .accessSemi => 46
  | .unload => 69
  | .emptyArray => 50
  | .emptyList => 60
  | .halt => 19
  | .reserved r => r.id

def mnemonic : Opcode → String
  | .nothing => "NOTHING"
  | .constant => "CONSTANT"
  | .binary op => op.mnemonic
  | .not => "UNR_NOT"
  | .negate => "UNR_MIN"
  | .factorial => "UNR_FAC"
  | .compare c => c.mnemonic
  | .chain c => c.chainMnemonic
  | .call kind => kind.mnemonic
  | .ret => "RETURN"
  | .function => "FUNCTION_NORMAL"
  | .jump => "JUMP"
  | .jumpIf true => "JUMP_IF_TRUE"
  | .jumpIf false => "JUMP_IF_FALSE"
  | .duplicate => "DUPLICATE"
  | .discard => "DISCARD"
  | .swap => "STACK_SWAP"
  | .assignment => "ASSIGNMENT"
  | .accessGlobal => "ACCESS_GLOBAL"
  | .accessLocal => "ACCESS_LOCAL"
  | .accessSemi => "ACCESS_SEMI"
  | .unload => "UNLOAD"
  | .emptyArray => "CONSTANT_EMPTY_ARRAY"
  | .emptyList => "LIST_CREATE_EMPTY"
  | .halt => "END"
  | .reserved r => r.mnemonic

/-- Whether the machine refuses to execute it. -/
def isReserved : Opcode → Bool
  | .reserved _ => true
  | _ => false

/-- The instruction set, by increasing id. -/
def all : List Opcode :=
  [.nothing, .constant, .binary .add, .binary .sub, .binary .mul, .binary .div, .binary .mod,
    .binary .pow, .binary .and, .binary .or, .not, .negate, .factorial, .reserved .jumpIfMacro,
    .call .plain, .reserved .word, .assignment, .swap, .halt, .reserved .functionMacro, .function,
    .ret, .jump, .jumpIf true, .jumpIf false, .duplicate, .discard, .compare .less, .compare .more,
    .compare .lessEq, .compare .moreEq, .compare .equal, .compare .notEqual, .chain .less,
    .chain .more, .chain .lessEq, .chain .moreEq, .chain .equal, .chain .notEqual,
    .reserved .storeInCache, .accessGlobal, .accessLocal, .accessSemi, .emptyArray,
    .reserved .accessArrayElement, .call .uncached, .reserved .beginProtectedGlobalBlock,
    .reserved .endProtectedGlobalBlock, .reserved .declareSymbol, .emptyList,
    .reserved .listExtractFirst, .reserved .listExtractRest, .reserved .listPrepend,
    .reserved .listConcat, .call .tail, .reserved .pushErrorStopgap, .reserved .constantString,
    .reserved .constantGlyph, .unload]

def ofId? (id : UInt32) : Option Opcode :=
  all.find? (·.id == id)

theorem mem_all (op : Opcode) : op ∈ all := by
  rcases op with _ | _ | op | _ | _ | _ | c | c | kind | _ | _ | _ | condition | _ | _ | _ | _ | _ | _ | _
    | _ | _ | _ | _ | r
  case binary => cases op <;> decide
  case compare => cases c <;> decide
  case chain => cases c <;> decide
  case call => cases kind <;> decide
  case jumpIf => cases condition <;> decide
  case reserved => cases r <;> decide
  all_goals decide

/-- An instruction is found by its id: no two share one. -/
theorem ofId?_id (op : Opcode) : ofId? op.id = some op := by
  have key : ∀ op ∈ all, ofId? op.id = some op := by decide +kernel
  exact key op op.mem_all

end Opcode

end StackMachine
