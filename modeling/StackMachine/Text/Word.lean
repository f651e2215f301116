import StackMachine.Text.Blank

/-!
# Words and their lines

A text is read as the sequence of its words, the maximal runs of characters that are not blank, each
with the one-based number of its line. Only a line feed starts a new line; every other blank, a
carriage return or a line separator among them, stays inside one.

A `Scanner` hands the words out one by one and can drop what is left of the current line.
-/

namespace StackMachine.Text

/-- A word of a text, with the line on which it stands. -/
structure Word where
  text : String
  line : Nat
deriving DecidableEq, Repr

/-- The characters of the first word of `cs`, where `cs` starts with a word. -/
def wordChars (cs : List Char) : List Char :=
  cs.takeWhile fun c => !isBlank c

/-- What follows the first word of `cs`, where `cs` starts with a word. -/
def afterWord (cs : List Char) : List Char :=
  cs.dropWhile fun c => !isBlank c

theorem length_afterWord_le (cs : List Char) : (afterWord cs).length ≤ cs.length :=
  (List.dropWhile_suffix _).length_le

/-- The words of `cs`, where `cs` starts on the line numbered `line`. -/
def wordsFrom (line : Nat) : List Char → List Word
  | [] => []
  | c :: cs =>
    if c = '\n' then wordsFrom (line + 1) cs
    else if isBlank c then wordsFrom line cs
    else ⟨String.ofList (c :: wordChars cs), line⟩ :: wordsFrom line (afterWord cs)
termination_by cs => cs.length
decreasing_by
  · simp
  · simp
  · have := length_afterWord_le cs
    simp only [List.length_cons]
    omega

def words (text : String) : List Word :=
  wordsFrom 1 text.toList

/-- The words of a text not handed out so far, and the line of the last one that was: `0` before the
first, as lines are numbered from one. -/
structure Scanner where
  rest : List Word
  line : Nat
deriving DecidableEq, Repr

namespace Scanner

def ofText (text : String) : Scanner :=
  ⟨words text, 0⟩

def next? (s : Scanner) : Option (Word × Scanner) :=
  match s.rest with
  | [] => none
  | w :: ws => some (w, ⟨ws, w.line⟩)

/-- Drops the words left on the line of the last word handed out. -/
def skipLine (s : Scanner) : Scanner :=
  { s with rest := s.rest.dropWhile fun w => w.line == s.line }

end Scanner

end StackMachine.Text
