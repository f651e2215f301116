import Mathlib.Data.List.TakeWhile
import StackMachine.Text.Word

/-!
# The words of a text, line by line

The words are those of the lines one after the other, and the words of a line are what its blanks
leave (`words_eq_linesWords`). Their line numbers never go down (`wordsFrom_sorted`), so the words left
on a line can be dropped one by one or taken out of the whole text.
-/

namespace StackMachine.Text

variable {b c : Char} {cs w rest : List Char} {line : Nat}

def lineWords (line : Nat) (cs : List Char) : List Word :=
  ((cs.splitOnP isBlank).filter (· ≠ [])).map fun w => ⟨String.ofList w, line⟩

/-! ### One line -/

theorem newline_notMem_of_isWord (hw : isWord w = true) : '\n' ∉ w := by
  intro hmem
  have hclear := (isWord_iff.1 hw).2 '\n' hmem
  exact absurd hclear (by decide)

theorem lineWords_append (hb : isBlank b = true) (cs ds : List Char) :
    lineWords line (cs ++ b :: ds) = lineWords line cs ++ lineWords line ds := by
  unfold lineWords
  rw [List.splitOnP_append_cons cs ds hb, List.filter_append, List.map_append]

theorem lineWords_blank (hb : isBlank b = true) : lineWords line (b :: cs) = lineWords line cs :=
  lineWords_append hb [] cs

theorem lineWords_concat (hb : isBlank b = true) (cs : List Char) :
    lineWords line (cs ++ [b]) = lineWords line cs := by
  rw [lineWords_append hb]
  exact List.append_nil _

theorem lineWords_word (hw : isWord w = true) : lineWords line w = [⟨String.ofList w, line⟩] := by
  obtain ⟨hne, hclear⟩ := isWord_iff.1 hw
  unfold lineWords
  rw [List.splitOnP_eq_singleton hclear, List.filter_cons_of_pos (by simpa using hne)]
  rfl

theorem lineWords_cons (hw : isWord w = true) (hb : isBlank b = true) :
    lineWords line (w ++ b :: cs) = ⟨String.ofList w, line⟩ :: lineWords line cs := by
  rw [lineWords_append hb, lineWords_word hw, List.singleton_append]

/-! ### The scanner -/

theorem isWord_cons_wordChars (hc : isBlank c = false) (cs : List Char) :
    isWord (c :: wordChars cs) = true := by
  refine isWord_iff.2 ⟨List.cons_ne_nil _ _, List.forall_mem_cons.2 ⟨hc, ?_⟩⟩
  intro d hd
  have hclear := List.mem_takeWhile_imp hd
  simpa using hclear

theorem afterWord_cases (cs : List Char) :
    wordChars cs = cs ∧ afterWord cs = [] ∨
      ∃ b rest, isBlank b = true ∧ afterWord cs = b :: rest ∧ cs = wordChars cs ++ b :: rest := by
  have happend : wordChars cs ++ afterWord cs = cs := List.takeWhile_append_dropWhile
  cases h : afterWord cs with
  | nil =>
    rw [h, List.append_nil] at happend
    exact .inl ⟨happend, rfl⟩
  | cons b rest =>
    rw [h] at happend
    have hb := List.head?_dropWhile_not (fun c => !isBlank c) cs
    rw [show cs.dropWhile (fun c => !isBlank c) = b :: rest from h] at hb
    exact .inr ⟨b, rest, by simpa using hb, rfl, happend.symm⟩

theorem newline_notMem_afterWord (h : '\n' ∉ cs) : '\n' ∉ afterWord cs := by
  intro hmem
  exact h ((List.dropWhile_suffix _).subset hmem)

theorem wordsFrom_eq_lineWords (h : '\n' ∉ cs) : wordsFrom line cs = lineWords line cs := by
  fun_induction wordsFrom line cs with
  | case1 line => rfl
  | case2 line cs ih => exact absurd List.mem_cons_self h
  | case3 line c cs hc hb ih =>
    have hcs : '\n' ∉ cs := List.not_mem_of_not_mem_cons h
    rw [lineWords_blank hb, ih hcs]
  | case4 line c cs hc hb ih =>
    have hword := isWord_cons_wordChars (Bool.eq_false_iff.2 hb) cs
    rcases afterWord_cases cs with ⟨hall, hnil⟩ | ⟨b, rest, hblank, hrest, hcs⟩
    · rw [hnil, hall, wordsFrom]
      rw [hall] at hword
      exact (lineWords_word hword).symm
    · have hmem : '\n' ∉ afterWord cs := newline_notMem_afterWord (List.not_mem_of_not_mem_cons h)
      have hsplit : c :: cs = (c :: wordChars cs) ++ b :: rest := congrArg (c :: ·) hcs
      rw [ih hmem, hrest, lineWords_blank hblank, hsplit, lineWords_cons hword hblank]

theorem word_append (hb : isBlank b = true) (cs rest : List Char) :
    wordChars (cs ++ b :: rest) = wordChars cs ∧
      afterWord (cs ++ b :: rest) = afterWord cs ++ b :: rest := by
  unfold wordChars afterWord
  induction cs with
  | nil => simp [hb]
  | cons c cs ih =>
    by_cases hc : isBlank c = true
    · simp [hc]
    · simp [hc, ih]

theorem wordsFrom_append (h : '\n' ∉ cs) :
    wordsFrom line (cs ++ '\n' :: rest) = lineWords line cs ++ wordsFrom (line + 1) rest := by
  rw [← wordsFrom_eq_lineWords h]
  fun_induction wordsFrom line cs with
  | case1 line =>
    rw [List.nil_append, wordsFrom, if_pos rfl]
    rfl
  | case2 line cs ih => exact absurd List.mem_cons_self h
  | case3 line c cs hc hb ih =>
    have hcs : '\n' ∉ cs := List.not_mem_of_not_mem_cons h
    rw [List.cons_append, wordsFrom, if_neg hc, if_pos hb, ih hcs]
  | case4 line c cs hc hb ih =>
    have hmem : '\n' ∉ afterWord cs := newline_notMem_afterWord (List.not_mem_of_not_mem_cons h)
    obtain ⟨hword, hafter⟩ := word_append (b := '\n') (by decide) cs rest
    rw [List.cons_append, wordsFrom, if_neg hc, if_neg hb, hword, hafter, ih hmem, List.cons_append]

/-! ### The whole text -/

def linesWords (line : Nat) (cs : List Char) : List Word :=
  ((cs.splitOn '\n').zipIdx line).flatMap fun (l, k) => lineWords k l

/-- What holds of a text without line feeds, and of a line in front of all of which it holds, holds of every
text. -/
theorem induction_lines {P : List Char → Prop} (last : ∀ l, '\n' ∉ l → P l)
    (feed : ∀ l rest, '\n' ∉ l → P rest → P (l ++ '\n' :: rest)) (cs : List Char) : P cs := by
  induction h : cs.length using Nat.strong_induction_on generalizing cs with
  | _ n ih =>
    by_cases hmem : '\n' ∈ cs
    · obtain ⟨l, rest, rfl, hl⟩ := List.eq_append_cons_of_mem hmem
      have hlt : rest.length < n := by
        rw [← h, List.length_append, List.length_cons]
        omega
      exact feed l rest hl (ih rest.length hlt rest rfl)
    · exact last cs hmem

theorem wordsFrom_eq_linesWords (line : Nat) (cs : List Char) :
    wordsFrom line cs = linesWords line cs := by
  unfold linesWords
  induction cs using induction_lines generalizing line with
  | last l hl =>
    rw [List.splitOn_eq_singleton hl, wordsFrom_eq_lineWords hl, List.zipIdx_singleton,
      List.flatMap_singleton]
  | feed l rest hl ih =>
    rw [List.splitOn_append_cons_self_of_not_mem hl, wordsFrom_append hl, List.zipIdx_cons,
      List.flatMap_cons, ih]

theorem words_eq_linesWords (text : String) : words text = linesWords 1 text.toList :=
  wordsFrom_eq_linesWords 1 text.toList

theorem isWord_of_mem_wordsFrom (line : Nat) (cs : List Char) :
    ∀ w ∈ wordsFrom line cs, isWord w.text.toList = true := by
  fun_induction wordsFrom line cs with
  | case1 line => exact fun w hw => absurd hw List.not_mem_nil
  | case2 line cs ih => exact ih
  | case3 line c cs hc hb ih => exact ih
  | case4 line c cs hc hb ih =>
    refine List.forall_mem_cons.2 ⟨?_, ih⟩
    rw [String.toList_ofList]
    exact isWord_cons_wordChars (Bool.eq_false_iff.2 hb) cs

/-! ### Line numbers -/

theorem wordsFrom_sorted (line : Nat) (cs : List Char) :
    (∀ w ∈ wordsFrom line cs, line ≤ w.line) ∧ (wordsFrom line cs).Pairwise (·.line ≤ ·.line) := by
  fun_induction wordsFrom line cs with
  | case1 line => exact ⟨fun w hw => absurd hw List.not_mem_nil, .nil⟩
  | case2 line cs ih =>
    obtain ⟨hle, hsorted⟩ := ih
    refine ⟨?_, hsorted⟩
    intro w hw
    exact Nat.le_of_succ_le (hle w hw)
  | case3 line c cs hc hb ih => exact ih
  | case4 line c cs hc hb ih =>
    obtain ⟨hle, hsorted⟩ := ih
    exact ⟨List.forall_mem_cons.2 ⟨Nat.le_refl _, hle⟩, List.pairwise_cons.2 ⟨hle, hsorted⟩⟩

/-- Dropping the words on the first line is leaving out all that are on it. -/
theorem dropWhile_line_eq_filter {ws : List Word} (hsorted : ws.Pairwise (·.line ≤ ·.line))
    (hle : ∀ w ∈ ws, line ≤ w.line) :
    ws.dropWhile (fun w => w.line == line) = ws.filter (fun w => w.line ≠ line) := by
  induction ws with
  | nil => rfl
  | cons v ws ih =>
    obtain ⟨hv, hws⟩ := List.pairwise_cons.1 hsorted
    by_cases h : v.line = line
    · rw [List.dropWhile_cons_of_pos (by simpa using h), List.filter_cons_of_neg (by simpa using h)]
      exact ih hws fun w hw => hle w (List.mem_cons_of_mem v hw)
    · have hlt : line < v.line := Nat.lt_of_le_of_ne (hle v List.mem_cons_self) (Ne.symm h)
      rw [List.dropWhile_cons_of_neg (by simpa using h), List.filter_eq_self.2]
      intro w hw
      rcases List.mem_cons.1 hw with rfl | hw
      · simpa using h
      · have := hv w hw
        simp only [ne_eq, decide_not, Bool.not_eq_true', decide_eq_false_iff_not]
        omega

end StackMachine.Text
