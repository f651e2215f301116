import StackMachine.Listing.Basic
import StackMachine.Numeral.Shortest
import StackMachine.Program
import StackMachine.Text.Blank

/-!
# Writing a listing

A program is written with one record on a line. Functions, lists and scopes have no record, and a file
name has to be a word. The first datum that cannot be written decides.
-/

namespace StackMachine.Listing

/-- The record of a datum at the given address. -/
def record (address : Nat) : Datum → Except Error String
  | .null => .ok "nul"
  | .integer n => .ok s!"int {n.toInt}"
  | .real x => .ok s!"flt {Numeral.shortest x}"
  | .instruction i =>
    if Text.isWord i.file.toList then .ok s!"ist {i.id.toNat} {i.line.toNat} {i.file}"
    else .error (.unencodableFilename address i.file)
  | d => .error (.unencodableDatum address d.tag)

/-- The records of the data from the given address on. -/
def recordsFrom (address : Nat) : List Datum → Except Error (List String)
  | [] => .ok []
  | d :: ds => do
    let line ← record address d
    let lines ← recordsFrom (address + 1) ds
    .ok (line :: lines)

end StackMachine.Listing

namespace StackMachine

def Program.toListing (p : Program) : Except Listing.Error String := do
  let lines ← Listing.recordsFrom 0 p.toList
  .ok (String.join ((lines ++ [Listing.terminator]).map (· ++ "\n")))

end StackMachine
