import StackMachine.Proofs.Text.Words

/-!
# Reading a text line by line

The words of a text can be found without going through all of it first. A `LineScanner` opens one line at a
time and goes on to the next only when a word is asked for and there is none left. Whatever the order in which
words are asked for and lines skipped, its answers are those of a `Scanner` (`LineScanner.answers_eq`).
-/

namespace StackMachine.Text

/-! ### Answers -/

inductive Call where
  | next
  | skipLine
deriving DecidableEq, Repr

/-- What calls for the next word are answered, in their order: a word, or none if there is none left. -/
def answers {σ : Type} (next : σ → Option Word × σ) (skipLine : σ → σ) (s : σ) :
    List Call → List (Option Word)
  | [] => []
  | .next :: calls => (next s).1 :: answers next skipLine (next s).2 calls
  | .skipLine :: calls => answers next skipLine (skipLine s) calls

/-- Scanners that stay related, and answer alike when they are, cannot be told apart. -/
theorem answers_eq_of_related {σ τ : Type} {next : σ → Option Word × σ} {next' : τ → Option Word × τ}
    {skip : σ → σ} {skip' : τ → τ} (related : σ → τ → Prop)
    (hnext : ∀ s t, related s t → (next s).1 = (next' t).1 ∧ related (next s).2 (next' t).2)
    (hskip : ∀ s t, related s t → related (skip s) (skip' t)) {s : σ} {t : τ} (h : related s t)
    (calls : List Call) : answers next skip s calls = answers next' skip' t calls := by
  induction calls generalizing s t with
  | nil => rfl
  | cons call calls ih =>
    cases call with
    | next =>
      obtain ⟨hanswer, hrelated⟩ := hnext s t h
      rw [answers, answers, hanswer, ih hrelated]
    | skipLine =>
      rw [answers, answers, ih (hskip s t h)]

namespace Scanner

/-- A call for the next word. One that finds none changes nothing. -/
def next (s : Scanner) : Option Word × Scanner :=
  match s.next? with
  | none => (none, s)
  | some (w, s) => (some w, s)

def answers (s : Scanner) (calls : List Call) : List (Option Word) :=
  Text.answers next skipLine s calls

end Scanner

/-! ### Lines -/

variable {ds l : List Char} {line : Nat}

/-- The text cut behind each of its line feeds. -/
def cutLines : List Char → List (List Char)
  | [] => []
  | c :: cs =>
    if c = '\n' then [c] :: cutLines cs
    else match cutLines cs with
      | [] => [[c]]
      | l :: ls => (c :: l) :: ls

/-- Takes a line feed off the end of a line, and the carriage return before it if there is one. -/
def chomp (l : List Char) : List Char :=
  if l.getLast? = some '\n' then
    if l.dropLast.getLast? = some '\r' then l.dropLast.dropLast else l.dropLast
  else l

def lines (cs : List Char) : List (List Char) :=
  (cutLines cs).map chomp

def runs (cs : List Char) : List (List Char) :=
  (cs.splitOnP isBlank).filter (· ≠ [])

theorem cutLines_append (h : '\n' ∉ l) :
    cutLines (l ++ '\n' :: ds) = (l ++ ['\n']) :: cutLines ds := by
  induction l with
  | nil => simp [cutLines]
  | cons c l ih =>
    obtain ⟨hc, hl⟩ := List.ne_and_not_mem_of_not_mem_cons h
    rw [List.cons_append, cutLines, if_neg (Ne.symm hc), ih hl]
    rfl

theorem cutLines_of_notMem (hne : l ≠ []) (h : '\n' ∉ l) : cutLines l = [l] := by
  induction l with
  | nil => exact absurd rfl hne
  | cons c l ih =>
    obtain ⟨hc, hl⟩ := List.ne_and_not_mem_of_not_mem_cons h
    rw [cutLines, if_neg (Ne.symm hc)]
    cases l with
    | nil => rfl
    | cons d l => rw [ih (List.cons_ne_nil d l) hl]

theorem lineWords_dropLast {b : Char} (hlast : l.getLast? = some b) (hb : isBlank b = true) :
    lineWords line l.dropLast = lineWords line l := by
  obtain ⟨m, rfl⟩ := List.getLast?_eq_some_iff.1 hlast
  rw [List.dropLast_concat, lineWords_concat hb]

/-- The end of a line is blank, so that no word is lost with it. -/
theorem lineWords_chomp (line : Nat) (l : List Char) : lineWords line (chomp l) = lineWords line l := by
  unfold chomp
  split
  · next hfeed =>
    split
    · next hreturn => rw [lineWords_dropLast hreturn (by decide), lineWords_dropLast hfeed (by decide)]
    · rw [lineWords_dropLast hfeed (by decide)]
  · rfl

/-- The words of the given lines, of which the first has the given number. -/
def wordsOfLines (line : Nat) (ls : List (List Char)) : List Word :=
  (ls.zipIdx line).flatMap fun (l, k) => lineWords k l

theorem wordsOfLines_cons (line : Nat) (l : List Char) (ls : List (List Char)) :
    wordsOfLines line (l :: ls) = lineWords line l ++ wordsOfLines (line + 1) ls := rfl

theorem le_line_of_mem_wordsOfLines {ls : List (List Char)} {w : Word}
    (hw : w ∈ wordsOfLines line ls) : line ≤ w.line := by
  obtain ⟨⟨l, k⟩, hl, hw⟩ := List.mem_flatMap.1 hw
  obtain ⟨run, -, rfl⟩ := List.mem_map.1 hw
  exact List.le_snd_of_mem_zipIdx hl

theorem wordsOfLines_lines (line : Nat) (cs : List Char) :
    wordsOfLines line (lines cs) = wordsFrom line cs := by
  unfold lines
  induction cs using induction_lines generalizing line with
  | last l hl =>
    rw [wordsFrom_eq_lineWords hl]
    by_cases hne : l = []
    · subst hne
      rfl
    · rw [cutLines_of_notMem hne hl, List.map_singleton, wordsOfLines_cons, lineWords_chomp]
      exact List.append_nil _
  | feed l rest hl ih =>
    rw [cutLines_append hl, List.map_cons, wordsOfLines_cons, lineWords_chomp,
      lineWords_concat (by decide), wordsFrom_append hl, ih]

/-! ### One line open at a time -/

/-- The lines that are not open yet, what is left of the words of the open one, and its number: `0` before
the first. -/
structure LineScanner where
  lines : List (List Char)
  words : List (List Char)
  line : Nat
deriving DecidableEq, Repr

namespace LineScanner

def ofText (text : String) : LineScanner :=
  ⟨Text.lines text.toList, [], 0⟩

/-- Lines are opened until there is a word on one of them, or no line left. -/
def next : LineScanner → Option Word × LineScanner
  | ⟨lines, w :: ws, line⟩ => (some ⟨String.ofList w, line⟩, ⟨lines, ws, line⟩)
  | ⟨l :: ls, [], line⟩ => next ⟨ls, runs l, line + 1⟩
  | ⟨[], [], line⟩ => (none, ⟨[], [], line⟩)
termination_by s => s.lines.length

def skipLine (s : LineScanner) : LineScanner :=
  { s with words := [] }

def answers (s : LineScanner) (calls : List Call) : List (Option Word) :=
  Text.answers next skipLine s calls

def rest (s : LineScanner) : List Word :=
  (s.words.map fun run => ⟨String.ofList run, s.line⟩) ++ wordsOfLines (s.line + 1) s.lines

theorem next_rest (s : LineScanner) : s.next.1 = s.rest.head? ∧ s.next.2.rest = s.rest.tail := by
  fun_induction next s with
  | case1 lines w ws line => exact ⟨rfl, rfl⟩
  | case2 line l ls ih => exact ih
  | case3 line => exact ⟨rfl, rfl⟩

/-- The word handed out is on the line open then. -/
theorem line_next (s : LineScanner) : s.line ≤ s.next.2.line ∧ ∀ w ∈ s.next.1, s.next.2.line = w.line := by
  fun_induction next s with
  | case1 lines w ws line =>
    refine ⟨Nat.le_refl line, ?_⟩
    rintro _ ⟨⟩
    rfl
  | case2 line l ls ih => exact ⟨Nat.le_of_succ_le ih.1, ih.2⟩
  | case3 line => exact ⟨Nat.le_refl line, fun w hw => nomatch hw⟩

/-- Both scanners have the same words left, and those on the open line are on that of the last word. -/
structure Agrees (l : LineScanner) (s : Scanner) : Prop where
  rest : l.rest = s.rest
  line_le : s.line ≤ l.line
  open_line : l.words ≠ [] → l.line = s.line

variable {l : LineScanner} {s : Scanner}

theorem agrees_ofText (text : String) : Agrees (ofText text) (Scanner.ofText text) where
  rest := wordsOfLines_lines 1 text.toList
  line_le := Nat.le_refl 0
  open_line h := absurd rfl h

/-- No word is left on the open line if none was handed out. -/
theorem exists_of_words_next (h : l.next.2.words ≠ []) : ∃ w, l.next.1 = some w := by
  fun_induction next l with
  | case1 lines w ws line => exact ⟨_, rfl⟩
  | case2 line l ls ih => exact ih h
  | case3 line => exact absurd rfl h

theorem Agrees.next (h : Agrees l s) : l.next.1 = s.next.1 ∧ Agrees l.next.2 s.next.2 := by
  obtain ⟨hhead, htail⟩ := l.next_rest
  obtain ⟨hline, hword⟩ := l.line_next
  rw [h.rest] at hhead htail
  unfold Scanner.next Scanner.next?
  cases hrest : s.rest with
  | nil =>
    rw [hrest] at hhead htail
    refine ⟨hhead, htail.trans hrest.symm, Nat.le_trans h.line_le hline, fun hne => ?_⟩
    obtain ⟨w, hw⟩ := exists_of_words_next hne
    rw [hhead] at hw
    cases hw
  | cons w ws =>
    rw [hrest] at hhead htail
    have hopen := hword w hhead
    exact ⟨hhead, htail, Nat.le_of_eq hopen.symm, fun _ => hopen⟩

/-- The words left on the open line are just those that the other scanner drops. -/
theorem Agrees.skipLine (h : Agrees l s) : Agrees l.skipLine s.skipLine where
  rest := by
    have hopen : ∀ w ∈ l.words.map fun run => (⟨String.ofList run, l.line⟩ : Word),
        (w.line == s.line) = true := by
      intro w hw
      obtain ⟨run, hrun, rfl⟩ := List.mem_map.1 hw
      exact beq_iff_eq.2 (h.open_line (List.ne_nil_of_mem hrun))
    have hlater : ∀ w ∈ wordsOfLines (l.line + 1) l.lines, ¬(w.line == s.line) = true := by
      intro w hw hline
      have hle := le_line_of_mem_wordsOfLines hw
      have hs := h.line_le
      rw [beq_iff_eq] at hline
      omega
    show wordsOfLines (l.line + 1) l.lines = s.rest.dropWhile _
    rw [← h.rest, LineScanner.rest, List.dropWhile_append_of_pos hopen]
    cases hws : wordsOfLines (l.line + 1) l.lines with
    | nil => rfl
    | cons w ws =>
      rw [hws] at hlater
      rw [List.dropWhile_cons, if_neg (hlater w List.mem_cons_self)]
  line_le := h.line_le
  open_line hne := absurd rfl hne

theorem answers_eq (text : String) (calls : List Call) :
    (ofText text).answers calls = (Scanner.ofText text).answers calls :=
  answers_eq_of_related Agrees (fun _ _ h => h.next) (fun _ _ h => h.skipLine) (agrees_ofText text) calls

end LineScanner

end StackMachine.Text
