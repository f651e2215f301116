import StackMachine.Opcode

/-!
# Instructions

An instruction names an opcode by its id, which need not be that of any, and the place in a source file
that it was compiled from.
-/

namespace StackMachine

structure Instruction where
  id : UInt32
  line : UInt32
  file : String
deriving DecidableEq, Repr

namespace Instruction

/-- An instruction with no known place. -/
def bare (op : Opcode) : Instruction :=
  ⟨op.id, 0, "?"⟩

def opcode? (i : Instruction) : Option Opcode :=
  Opcode.ofId? i.id

def render (i : Instruction) : String :=
  s!"[{i.id.toNat} {i.line.toNat} {i.file}]"

end Instruction

end StackMachine
