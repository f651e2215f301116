import StackMachine.Datum

/-!
# Listings

The text form of a program. A listing is a sequence of words: records, each of them a tag and the
fields that its kind has, and then the word `source`. Line breaks mean nothing, with one exception: if
the first word is `bytecode`, the rest of its line is skipped.
-/

namespace StackMachine.Listing

/-- The kinds of records. A text stands for no value and is kept as null. -/
inductive RecordKind where
  | integer
  | real
  | instruction
  | text
  | null
deriving DecidableEq, Repr

inductive Field where
  | value
  | opcodeId
  | lineNumber
  | filename
  | token
deriving DecidableEq, Repr

def Field.name : Field → String
  | .value => "value"
  | .opcodeId => "opcode id"
  | .lineNumber => "line number"
  | .filename => "filename"
  | .token => "token"

namespace RecordKind

def tag : RecordKind → String
  | .integer => "int"
  | .real => "flt"
  | .instruction => "ist"
  | .text => "str"
  | .null => "nul"

def all : List RecordKind :=
  [.integer, .real, .instruction, .text, .null]

def ofTag? (tag : String) : Option RecordKind :=
  all.find? (·.tag == tag)

theorem ofTag?_eq_some_iff {tag : String} {k : RecordKind} : ofTag? tag = some k ↔ k.tag = tag := by
  constructor
  · intro h
    simpa using List.find?_some h
  · rintro rfl
    cases k <;> decide

end RecordKind

/-- The word that may open a listing. -/
def opening : String := "bytecode"

/-- The word that ends a listing. What follows it is never looked at. -/
def terminator : String := "source"

/-- What is wrong with a listing, or with a program that has none. A record is counted from zero, and
so is an address. -/
inductive Error where
  | unknownRecord (record line : Nat) (tag : String)
  | missingField (record line : Nat) (kind : RecordKind) (field : Field)
  | invalidNumber (record line : Nat) (text : String)
  | capacityExceeded (capacity : Nat)
  | missingTerminator (records : Nat)
  | unencodableDatum (address : Nat) (tag : Tag)
  | unencodableFilename (address : Nat) (file : String)
deriving DecidableEq, Repr

def Error.message : Error → String
  | .unknownRecord record line tag => s!"record {record} (line {line}): unknown record tag '{tag}'"
  | .missingField record line kind field =>
    s!"record {record} (line {line}): '{kind.tag}' is missing its {field.name}"
  | .invalidNumber record line text => s!"record {record} (line {line}): invalid number '{text}'"
  | .capacityExceeded capacity => s!"program exceeds the capacity of {capacity} records"
  | .missingTerminator records => s!"missing 'source' terminator after {records} records"
  | .unencodableDatum address tag => s!"cannot encode {tag.name} at address {address}"
  | .unencodableFilename address file => s!"cannot encode filename '{file}' at address {address}"

end StackMachine.Listing
