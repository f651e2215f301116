/-!
# Tags

The kinds of data, as error messages name them.
-/

namespace StackMachine

inductive Tag where
  | null
  | instruction
  | integer
  | real
  | function
  | list
  | scope
deriving DecidableEq, Repr

namespace Tag

def all : List Tag :=
  [.null, .instruction, .integer, .real, .function, .list, .scope]

def code : Tag → Nat
  | .null => 0
  | .instruction => 1
  | .integer => 2
  | .real => 3
  | .function => 4
  | .list => 5
  | .scope => 6

def name : Tag → String
  | .null => "none"
  | .instruction => "instruction"
  | .integer => "integer"
  | .real => "real"
  | .function => "function"
  | .list => "list"
  | .scope => "scope"

/-- Whether the arithmetic operators take data of this kind. -/
def isNumeric (t : Tag) : Bool :=
  t == .integer || t == .real

end Tag

end StackMachine
