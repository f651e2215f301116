import StackMachine.Listing.Basic
import StackMachine.Numeral.Real
import StackMachine.Program
import StackMachine.Text.Word

/-!
# Reading a listing

The words of a listing are read from left to right and the first thing wrong decides. A record that is
cut off is reported on the line of its tag, a numeral that is none on its own line. A record is read in
full before the capacity is looked at.
-/

namespace StackMachine.Listing

open Text (Word Scanner)

/-- The next word, as the given field of the record that `tag` opened. -/
def field (record : Nat) (tag : Word) (kind : RecordKind) (f : Field) :
    List Word → Except Error (Word × List Word)
  | [] => .error (.missingField record tag.line kind f)
  | w :: ws => .ok (w, ws)

/-- A field that holds a numeral, and what it means. -/
def number {α : Type} (parse : String → Option α) (record : Nat) (tag : Word) (kind : RecordKind)
    (f : Field) (ws : List Word) : Except Error (α × List Word) := do
  let (w, ws) ← field record tag kind f ws
  match parse w.text with
  | none => .error (.invalidNumber record w.line w.text)
  | some a => .ok (a, ws)

/-- The datum of a record whose tag has been taken off, and the words behind it. -/
def fields (record : Nat) (tag : Word) (kind : RecordKind) (ws : List Word) :
    Except Error (Datum × List Word) :=
  match kind with
  | .integer => do
    let (n, ws) ← number Numeral.int64? record tag kind .value ws
    .ok (.integer n, ws)
  | .real => do
    let (x, ws) ← number Numeral.real? record tag kind .value ws
    .ok (.real x, ws)
  | .instruction => do
    let (id, ws) ← number Numeral.uint32? record tag kind .opcodeId ws
    let (line, ws) ← number Numeral.uint32? record tag kind .lineNumber ws
    let (file, ws) ← field record tag kind .filename ws
    .ok (.instruction ⟨id, line, file.text⟩, ws)
  | .text => do
    let (_, ws) ← field record tag kind .token ws
    .ok (.null, ws)
  | .null => .ok (.null, ws)

theorem length_of_field {record : Nat} {tag : Word} {kind : RecordKind} {f : Field}
    {ws rest : List Word} {w : Word} (h : field record tag kind f ws = .ok (w, rest)) :
    rest.length < ws.length := by
  cases ws with
  | nil => simp [field] at h
  | cons v vs =>
    simp only [field, Except.ok.injEq, Prod.mk.injEq] at h
    simp [h.2]

theorem length_of_number {α : Type} {parse : String → Option α} {record : Nat} {tag : Word}
    {kind : RecordKind} {f : Field} {ws rest : List Word} {a : α}
    (h : number parse record tag kind f ws = .ok (a, rest)) : rest.length < ws.length := by
  cases hf : field record tag kind f ws with
  | error e => simp [number, hf, bind, Except.bind] at h
  | ok p =>
    obtain ⟨w, vs⟩ := p
    have hl := length_of_field hf
    simp only [number, hf, bind, Except.bind] at h
    split at h
    · cases h
    · simp only [Except.ok.injEq, Prod.mk.injEq] at h
      exact h.2 ▸ hl

theorem length_of_fields {record : Nat} {tag : Word} {kind : RecordKind} {ws rest : List Word}
    {d : Datum} (h : fields record tag kind ws = .ok (d, rest)) : rest.length ≤ ws.length := by
  cases kind with
  | integer =>
    cases hn : number Numeral.int64? record tag .integer .value ws with
    | error e => simp [fields, hn, bind, Except.bind] at h
    | ok p =>
      simp only [fields, hn, bind, Except.bind, Except.ok.injEq, Prod.mk.injEq] at h
      exact h.2 ▸ Nat.le_of_lt (length_of_number hn)
  | real =>
    cases hn : number Numeral.real? record tag .real .value ws with
    | error e => simp [fields, hn, bind, Except.bind] at h
    | ok p =>
      simp only [fields, hn, bind, Except.bind, Except.ok.injEq, Prod.mk.injEq] at h
      exact h.2 ▸ Nat.le_of_lt (length_of_number hn)
  | instruction =>
    cases h1 : number Numeral.uint32? record tag .instruction .opcodeId ws with
    | error e => simp [fields, h1, bind, Except.bind] at h
    | ok p =>
      obtain ⟨id, ws1⟩ := p
      cases h2 : number Numeral.uint32? record tag .instruction .lineNumber ws1 with
      | error e => simp [fields, h1, h2, bind, Except.bind] at h
      | ok q =>
        obtain ⟨line, ws2⟩ := q
        cases h3 : field record tag .instruction .filename ws2 with
        | error e => simp [fields, h1, h2, h3, bind, Except.bind] at h
        | ok r =>
          obtain ⟨file, ws3⟩ := r
          simp only [fields, h1, h2, h3, bind, Except.bind, Except.ok.injEq, Prod.mk.injEq] at h
          have := length_of_number h1
          have := length_of_number h2
          have := length_of_field h3
          rw [← h.2]
          omega
  | text =>
    cases hf : field record tag .text .token ws with
    | error e => simp [fields, hf, bind, Except.bind] at h
    | ok p =>
      simp only [fields, hf, bind, Except.bind, Except.ok.injEq, Prod.mk.injEq] at h
      exact h.2 ▸ Nat.le_of_lt (length_of_field hf)
  | null =>
    simp only [fields, Except.ok.injEq, Prod.mk.injEq] at h
    exact h.2 ▸ Nat.le_refl _

/-- The data of the records in `ws` up to the terminator, behind the data in `code`. -/
def records (capacity : Nat) (code : Array Datum) (ws : List Word) : Except Error Program :=
  match ws with
  | [] => .error (.missingTerminator code.size)
  | tag :: ws =>
    if tag.text = terminator then .ok ⟨code⟩
    else match RecordKind.ofTag? tag.text with
      | none => .error (.unknownRecord code.size tag.line tag.text)
      | some kind =>
        match _h : fields code.size tag kind ws with
        | .error e => .error e
        | .ok (d, rest) =>
          if capacity ≤ code.size then .error (.capacityExceeded capacity)
          else records capacity (code.push d) rest
termination_by ws.length
decreasing_by
  have := length_of_fields _h
  simp only [List.length_cons]
  omega

/-- The words that hold records: those of the whole text, less the first line if it opens a listing. -/
def body (text : String) : List Word :=
  let start := Scanner.ofText text
  match start.next? with
  | none => []
  | some (w, s) => if w.text = opening then s.skipLine.rest else start.rest

end StackMachine.Listing

namespace StackMachine

open Listing in
/-- The program of a listing, if it has at most `capacity` records. -/
def Program.ofListing (capacity : Nat) (text : String) : Except Listing.Error Program :=
  records capacity #[] (body text)

end StackMachine
