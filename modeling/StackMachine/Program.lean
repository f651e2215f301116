import StackMachine.Datum

/-!
# Programs

A program is a row of data. Instructions and the operands that follow some of them share it, so an
address can name either.

The address of a function is that of its header, five data in front of the body:

| offset | datum |
| --- | --- |
| 0 | the instruction `nothing`, on which jumps land |
| 1 | the name, kept as null |
| 2 | the number of parameters |
| 3 | whether the last parameter collects all further arguments |
| 4 | zero |
-/

namespace StackMachine

structure Program where
  code : Array Datum
deriving BEq, DecidableEq, Repr, Inhabited

namespace Program

/-- The number of data a program read from text may have if no other capacity is given. -/
def maxSize : Nat := 4096

def headerSize : Nat := 5

/-- The offset of the parameter count in a header. -/
def parametersOffset : Nat := 2

/-- The offset of the variadic flag in a header. -/
def variadicOffset : Nat := 3

def ofList (data : List Datum) : Program := ⟨data.toArray⟩

def toList (p : Program) : List Datum := p.code.toList

def size (p : Program) : Nat := p.code.size

def get? (p : Program) (address : Nat) : Option Datum := p.code[address]?

/-- The number of instructions among the data. -/
def instructionCount (p : Program) : Nat :=
  p.code.countP fun d => d.tag == .instruction

/-- What the header of a function tells. The last parameter of a variadic function collects the further
arguments. -/
structure Signature where
  parameters : Nat
  variadic : Bool
deriving DecidableEq, Repr

/-- The header at an address. A variadic function has at least the parameter that collects. -/
def signature? (p : Program) (address : Nat) : Option Signature :=
  match p.get? (address + parametersOffset), p.get? (address + variadicOffset) with
  | some (.integer parameters), some (.integer variadic) =>
    if parameters.toInt < 0 ∨ variadic ≠ 0 ∧ parameters = 0 then none
    else some ⟨parameters.toInt.toNat, variadic != 0⟩
  | _, _ => none

theorem one_le_parameters {p : Program} {address : Nat} {sig : Signature}
    (h : p.signature? address = some sig) (hv : sig.variadic = true) : 1 ≤ sig.parameters := by
  unfold signature? at h
  split at h
  · next parameters variadic _ _ =>
    split at h
    · cases h
    · next hvalid =>
      cases h
      obtain ⟨hpos, hzero⟩ := not_or.1 hvalid
      have hne : parameters ≠ 0 := fun h => hzero ⟨by simpa using hv, h⟩
      have hne' : parameters.toInt ≠ 0 := fun h => hne (Int64.toInt_inj.1 h)
      show 1 ≤ parameters.toInt.toNat
      omega
  · cases h

end Program

end StackMachine
