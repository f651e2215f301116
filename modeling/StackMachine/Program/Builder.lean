import StackMachine.Program

/-!
# Building programs by hand

A builder appends data one by one, and knows the address that the next one will have.
-/

namespace StackMachine

/-- A program under construction. -/
structure Builder where
  code : Array Datum
deriving Inhabited

namespace Builder

def empty : Builder := ⟨#[]⟩

/-- The address of the next datum. -/
def here (b : Builder) : Nat := b.code.size

def datum (b : Builder) (d : Datum) : Builder :=
  ⟨b.code.push d⟩

def op (b : Builder) (op : Opcode) : Builder :=
  b.datum (.instruction (.bare op))

def opAt (b : Builder) (op : Opcode) (line : UInt32) (file : String) : Builder :=
  b.datum (.instruction ⟨op.id, line, file⟩)

/-- An instruction and its integer operand. -/
def opWith (b : Builder) (op : Opcode) (operand : Int64) : Builder :=
  (b.op op).datum (.integer operand)

/-- An instruction that pushes `d`, and `d`. -/
def constant (b : Builder) (d : Datum) : Builder :=
  (b.op .constant).datum d

def functionHeader (b : Builder) (parameters : Int64) (variadic : Bool) : Builder :=
  ((((b.op .nothing).datum .null).datum (.integer parameters)).datum (.ofBool variadic)).datum
    (.integer 0)

def build (b : Builder) : Program := ⟨b.code⟩

end Builder

end StackMachine
