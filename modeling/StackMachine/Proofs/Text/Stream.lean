import StackMachine.Proofs.Text.LineByLine

/-!
# The stream of words

A word occurs in a text as a maximal run of characters that are not blank (`Occurrence`), on the line with one
more than the number of line feeds before it. What a scanner answers is given by the occurrences alone
(`Reads`): a call for the next word gets the first one behind the last word, and on a later line than that if
the rest of its line has been skipped since. There is no other answer than those of a scanner, one that opens
the lines one by one gives the same, and none follows but none (`words_streamed`).
-/

namespace StackMachine.Text

/-! ### Occurrences -/

/-- A maximal run of characters that are not blank, and the text before and behind it. -/
structure Occurrence (cs : List Char) where
  before : List Char
  word : List Char
  behind : List Char
  eq : before ++ (word ++ behind) = cs
  isWord : isWord word = true
  blank_before : ∀ c ∈ before.getLast?, isBlank c = true
  blank_behind : ∀ c ∈ behind.head?, isBlank c = true

variable {cs rest pre w : List Char} {c : Char}

theorem word_exact (hw : isWord w = true) (hrest : ∀ c ∈ rest.head?, isBlank c = true) :
    wordChars (w ++ rest) = w ∧ afterWord (w ++ rest) = rest := by
  have hclear : ∀ c ∈ w, (!isBlank c) = true := by
    intro c hc
    rw [(isWord_iff.1 hw).2 c hc]
    rfl
  unfold wordChars afterWord
  rw [List.takeWhile_append_of_pos hclear, List.dropWhile_append_of_pos hclear]
  cases rest with
  | nil => exact ⟨List.append_nil w, rfl⟩
  | cons c rest =>
    have hc : isBlank c = true := hrest c rfl
    simp [hc]

theorem isBlank_head_afterWord (cs : List Char) : ∀ c ∈ (afterWord cs).head?, isBlank c = true := by
  rcases afterWord_cases cs with ⟨-, hnil⟩ | ⟨b, rest, hb, hrest, -⟩
  · rw [hnil]
    exact fun c hc => absurd hc (Option.not_mem_none c)
  · rw [hrest]
    rintro _ ⟨⟩
    exact hb

namespace Occurrence

def place (o : Occurrence cs) : Nat := o.before.length

def line (o : Occurrence cs) : Nat := 1 + o.before.count '\n'

def toWord (o : Occurrence cs) : Word := ⟨String.ofList o.word, o.line⟩

variable {o p : Occurrence cs}

theorem length_pos (o : Occurrence cs) : 0 < o.word.length :=
  List.length_pos_iff.2 (isWord_iff.1 o.isWord).1

theorem place_add_length_le (o : Occurrence cs) : o.place + o.word.length ≤ cs.length := by
  have hlength := congrArg List.length o.eq
  simp only [List.length_append] at hlength
  unfold place
  omega

theorem ext_place (h : o.place = p.place) : o = p := by
  obtain ⟨hbefore, hrest⟩ := List.append_inj (o.eq.trans p.eq.symm) h
  obtain ⟨howord, hobehind⟩ := word_exact o.isWord o.blank_behind
  obtain ⟨hpword, hpbehind⟩ := word_exact p.isWord p.blank_behind
  rw [hrest] at howord hobehind
  cases o
  cases p
  obtain rfl := hbefore
  obtain rfl := howord.symm.trans hpword
  obtain rfl := hobehind.symm.trans hpbehind
  rfl

theorem before_eq_take (o : Occurrence cs) : o.before = cs.take o.place :=
  List.take_left.symm.trans (congrArg (List.take o.place) o.eq)

theorem getElem?_place_add {i : Nat} (hi : i < o.word.length) : cs[o.place + i]? = o.word[i]? :=
  calc
    cs[o.place + i]? = (o.before ++ (o.word ++ o.behind))[o.place + i]? := congrArg (·[o.place + i]?) o.eq.symm
    _ = (o.word ++ o.behind)[i]? := by
      rw [place, List.getElem?_append_right (Nat.le_add_right _ _), Nat.add_sub_cancel_left]
    _ = o.word[i]? := List.getElem?_append_left hi

/-- The character before an occurrence is blank, and so is in no word. -/
theorem le_place_of_lt (h : o.place < p.place) : o.place + o.word.length ≤ p.place := by
  by_contra hover
  obtain ⟨i, hi⟩ : ∃ i, p.place = o.place + i + 1 := ⟨p.place - o.place - 1, by omega⟩
  have hlt : i < o.word.length := by omega
  have hlast : p.before.getLast? = some o.word[i] := by
    rw [p.before_eq_take, hi, List.getLast?_take, if_neg (Nat.succ_ne_zero _), Nat.add_sub_cancel,
      getElem?_place_add hlt, List.getElem?_eq_getElem hlt]
    rfl
  have hblank := p.blank_before _ hlast
  rw [(isWord_iff.1 o.isWord).2 _ (List.getElem_mem hlt)] at hblank
  cases hblank

theorem line_mono (h : o.place ≤ p.place) : o.line ≤ p.line := by
  have hinitial : o.before <+: p.before := by
    rw [o.before_eq_take, p.before_eq_take]
    exact List.take_prefix_take_left h
  exact Nat.add_le_add_left (hinitial.sublist.count_le _) 1

theorem place_ne_of_isBlank (h : pre ++ c :: rest = cs) (hc : isBlank c = true) : o.place ≠ pre.length := by
  intro hplace
  have hchar : cs[pre.length]? = some c := by
    rw [← h, List.getElem?_append_right (Nat.le_refl _), Nat.sub_self]
    rfl
  have hword := getElem?_place_add o.length_pos
  rw [Nat.add_zero, hplace, hchar, List.getElem?_eq_getElem o.length_pos] at hword
  have hclear := (isWord_iff.1 o.isWord).2 _ (List.getElem_mem o.length_pos)
  rw [← Option.some.inj hword, hc] at hclear
  cases hclear

end Occurrence

/-! ### All occurrences in order -/

/-- The occurrences that satisfy `P`, from the first to the last. -/
structure InOrder (P : Occurrence cs → Prop) (os : List (Occurrence cs)) : Prop where
  sorted : os.Pairwise (·.place < ·.place)
  mem_iff : ∀ o, o ∈ os ↔ P o

theorem InOrder.congr {P Q : Occurrence cs → Prop} {os : List (Occurrence cs)} (h : InOrder P os)
    (hPQ : ∀ o, P o ↔ Q o) : InOrder Q os :=
  ⟨h.sorted, fun o => (h.mem_iff o).trans (hPQ o)⟩

theorem InOrder.of_blank (h : pre ++ c :: rest = cs) (hc : isBlank c = true) {os : List (Occurrence cs)}
    (hos : InOrder (fun o => (pre ++ [c]).length ≤ o.place) os) :
    InOrder (fun o => pre.length ≤ o.place) os := by
  refine hos.congr fun o => ?_
  have hne := o.place_ne_of_isBlank h hc
  rw [List.length_append, List.length_singleton]
  omega

/-- Between the beginning and the end of an occurrence no other begins. -/
theorem InOrder.cons {o : Occurrence cs} {os : List (Occurrence cs)}
    (hos : InOrder (fun p => o.place + o.word.length ≤ p.place) os) :
    InOrder (fun p => o.place ≤ p.place) (o :: os) := by
  refine ⟨List.pairwise_cons.2 ⟨fun p hp => ?_, hos.sorted⟩, fun p => ?_⟩
  · have hle := (hos.mem_iff p).1 hp
    have hpos := o.length_pos
    omega
  · rw [List.mem_cons, hos.mem_iff]
    constructor
    · rintro (rfl | hp)
      · exact Nat.le_refl _
      · exact Nat.le_of_add_right_le hp
    · intro hp
      rcases Nat.eq_or_lt_of_le hp with hp | hp
      · exact .inl (Occurrence.ext_place hp.symm)
      · exact .inr (Occurrence.le_place_of_lt hp)

/-- From a place inside no word on, the words are those of the occurrences from there on. -/
theorem exists_inOrder (line : Nat) (pre rest : List Char) (h : pre ++ rest = cs)
    (hline : line = 1 + pre.count '\n')
    (hcut : (∀ c ∈ pre.getLast?, isBlank c = true) ∨ ∀ c ∈ rest.head?, isBlank c = true) :
    ∃ os : List (Occurrence cs), InOrder (fun o => pre.length ≤ o.place) os ∧
      os.map Occurrence.toWord = wordsFrom line rest := by
  fun_induction wordsFrom line rest generalizing pre with
  | case1 line =>
    refine ⟨[], ⟨.nil, fun o => ?_⟩, rfl⟩
    have hlength := congrArg List.length h
    have hle := o.place_add_length_le
    have hpos := o.length_pos
    simp only [List.append_nil] at hlength
    simp only [List.not_mem_nil, false_iff]
    omega
  | case2 line rest ih =>
    obtain ⟨os, hos, hwords⟩ := ih (pre ++ ['\n']) (by rw [← h, List.append_assoc]; rfl)
      (by rw [hline, List.count_append, List.count_singleton_self, Nat.add_assoc])
      (.inl (by rw [List.getLast?_concat]; rintro _ ⟨⟩; decide))
    exact ⟨os, hos.of_blank h (by decide), hwords⟩
  | case3 line c rest hc hb ih =>
    obtain ⟨os, hos, hwords⟩ := ih (pre ++ [c]) (by rw [← h, List.append_assoc]; rfl)
      (by rw [hline, List.count_append, List.count_singleton, if_neg (by simpa using hc), Nat.add_zero])
      (.inl (by rw [List.getLast?_concat]; rintro _ ⟨⟩; exact hb))
    exact ⟨os, hos.of_blank h hb, hwords⟩
  | case4 line c rest hc hb ih =>
    have hword : isWord (c :: wordChars rest) = true := isWord_cons_wordChars (Bool.eq_false_iff.2 hb) rest
    have hsplit : c :: wordChars rest ++ afterWord rest = c :: rest :=
      congrArg (c :: ·) List.takeWhile_append_dropWhile
    -- a word is found here, so that the character before is the one that is blank
    let o : Occurrence cs := {
      before := pre
      word := c :: wordChars rest
      behind := afterWord rest
      eq := by rw [hsplit, h]
      isWord := hword
      blank_before := hcut.resolve_right fun hhead => hb (hhead c rfl)
      blank_behind := isBlank_head_afterWord rest }
    obtain ⟨os, hos, hwords⟩ := ih (pre ++ c :: wordChars rest) (by rw [List.append_assoc, hsplit, h])
      (by rw [hline, List.count_append, List.count_eq_zero.2 (newline_notMem_of_isWord hword), Nat.add_zero])
      (.inr (isBlank_head_afterWord rest))
    have hend : (pre ++ c :: wordChars rest).length = o.place + o.word.length := List.length_append
    rw [hend] at hos
    refine ⟨o :: os, hos.cons, ?_⟩
    rw [List.map_cons, hwords, hline]
    rfl

/-! ### Answers by occurrences -/

/-- What can be handed out: all behind the last word, if there has been one, and on a later line than that if
the rest of its line has been skipped. -/
def Due (last : Option (Occurrence cs)) (skipped : Bool) (o : Occurrence cs) : Prop :=
  ∀ p ∈ last, p.place < o.place ∧ (skipped = true → p.line < o.line)

def IsFirst (P : Occurrence cs → Prop) (o : Occurrence cs) : Prop :=
  P o ∧ ∀ p, P p → o.place ≤ p.place

/-- After the word `last`, with the rest of its line skipped or not, the calls are answered each with the first
occurrence that is due, or with none if none is. -/
inductive Reads (cs : List Char) : Option (Occurrence cs) → Bool → List Call → List (Option Word) → Prop
  | done {last : Option (Occurrence cs)} {skipped : Bool} : Reads cs last skipped [] []
  | skipped {last : Option (Occurrence cs)} {skipped : Bool} {calls : List Call}
    {answers : List (Option Word)} : Reads cs last true calls answers →
    Reads cs last skipped (.skipLine :: calls) answers
  | word {last : Option (Occurrence cs)} {skipped : Bool} {o : Occurrence cs} {calls : List Call}
    {answers : List (Option Word)} : IsFirst (Due last skipped) o → Reads cs (some o) false calls answers →
    Reads cs last skipped (.next :: calls) (some o.toWord :: answers)
  | ended {last : Option (Occurrence cs)} {skipped : Bool} {calls : List Call}
    {answers : List (Option Word)} : (∀ o, ¬Due last skipped o) → Reads cs last skipped calls answers →
    Reads cs last skipped (.next :: calls) (none :: answers)

variable {last : Option (Occurrence cs)} {skipped : Bool} {o : Occurrence cs} {calls : List Call}
  {as bs : List (Option Word)} {s : Scanner} {os : List (Occurrence cs)}

theorem IsFirst.unique {P : Occurrence cs → Prop} {o p : Occurrence cs} (ho : IsFirst P o)
    (hp : IsFirst P p) : o = p :=
  Occurrence.ext_place (Nat.le_antisymm (ho.2 p hp.1) (hp.2 o ho.1))

theorem Reads.unique (h : Reads cs last skipped calls as) (h' : Reads cs last skipped calls bs) : as = bs := by
  induction h generalizing bs with
  | done =>
    cases h'
    rfl
  | skipped _ ih =>
    cases h' with
    | skipped h' => exact ih h'
  | word ho _ ih =>
    cases h' with
    | word hp h' =>
      obtain rfl := ho.unique hp
      rw [ih h']
    | ended hnone _ => exact absurd ho.1 (hnone _)
  | ended hnone _ ih =>
    cases h' with
    | word hp _ => exact absurd hp.1 (hnone _)
    | ended _ h' => rw [ih h']

/-- Lines are numbered from one, so nothing is skipped before the first word. -/
theorem due_skipped_iff :
    Due last skipped o ∧ o.line ≠ last.elim 0 Occurrence.line ↔ Due last true o := by
  cases last with
  | none =>
    have hline : o.line ≠ 0 := Nat.ne_of_gt (Nat.le_add_right 1 _)
    have hdue : ∀ skipped, Due none skipped o := fun _ p hp => absurd hp (Option.not_mem_none p)
    exact ⟨fun _ => hdue true, fun _ => ⟨hdue skipped, hline⟩⟩
  | some q =>
    constructor
    · rintro ⟨hdue, hne⟩ _ ⟨⟩
      obtain ⟨hplace, -⟩ := hdue q rfl
      have hle := Occurrence.line_mono (Nat.le_of_lt hplace)
      exact ⟨hplace, fun _ => Nat.lt_of_le_of_ne hle (Ne.symm hne)⟩
    · intro hdue
      obtain ⟨hplace, hline⟩ := hdue q rfl
      refine ⟨?_, Nat.ne_of_gt (hline rfl)⟩
      rintro _ ⟨⟩
      exact ⟨hplace, fun _ => hline rfl⟩

/-! ### The scanner -/

/-- The scanner has the words that are due left, and knows the line of the last one. -/
structure Scanner.Holds (s : Scanner) (last : Option (Occurrence cs)) (skipped : Bool) : Prop where
  rest : ∃ os, InOrder (Due last skipped) os ∧ os.map Occurrence.toWord = s.rest
  line : s.line = last.elim 0 Occurrence.line

namespace Scanner.Holds

theorem ofText (text : String) :
    (Scanner.ofText text).Holds (none : Option (Occurrence text.toList)) false where
  rest := by
    obtain ⟨os, hos, hwords⟩ := exists_inOrder 1 [] text.toList rfl rfl
      (.inl fun c hc => absurd hc (Option.not_mem_none c))
    refine ⟨os, hos.congr fun o => ?_, hwords⟩
    exact ⟨fun _ p hp => absurd hp (Option.not_mem_none p), fun _ => Nat.zero_le _⟩
  line := rfl

/-- Behind the first that is due there are just the others. -/
theorem inOrder_tail (h : InOrder (Due last skipped) (o :: os)) : InOrder (Due (some o) false) os := by
  obtain ⟨hlt, hsorted⟩ := List.pairwise_cons.1 h.sorted
  refine ⟨hsorted, fun p => ⟨fun hp => ?_, fun hp => ?_⟩⟩
  · rintro _ ⟨⟩
    exact ⟨hlt p hp, fun hskipped => nomatch hskipped⟩
  · obtain ⟨hplace, -⟩ := hp o rfl
    have hdue : Due last skipped p := by
      intro q hq
      obtain ⟨hqo, hqline⟩ := (h.mem_iff o).1 List.mem_cons_self q hq
      have hline := Occurrence.line_mono (Nat.le_of_lt hplace)
      exact ⟨Nat.lt_trans hqo hplace, fun hskipped => Nat.lt_of_lt_of_le (hqline hskipped) hline⟩
    rcases List.mem_cons.1 ((h.mem_iff p).2 hdue) with rfl | hmem
    · exact absurd hplace (Nat.lt_irrefl _)
    · exact hmem

theorem isFirst_head (h : InOrder (Due last skipped) (o :: os)) : IsFirst (Due last skipped) o := by
  obtain ⟨hlt, -⟩ := List.pairwise_cons.1 h.sorted
  refine ⟨(h.mem_iff o).1 List.mem_cons_self, fun p hp => ?_⟩
  rcases List.mem_cons.1 ((h.mem_iff p).2 hp) with rfl | hmem
  · exact Nat.le_refl _
  · exact Nat.le_of_lt (hlt p hmem)

theorem next (h : s.Holds last skipped) :
    (s.rest = [] ∧ ∀ o, ¬Due last skipped o) ∨
      ∃ o, IsFirst (Due last skipped) o ∧ s.next.1 = some o.toWord ∧ s.next.2.Holds (some o) false := by
  obtain ⟨os, hos, hwords⟩ := h.rest
  cases os with
  | nil =>
    refine .inl ⟨hwords.symm, fun o ho => ?_⟩
    exact absurd ((hos.mem_iff o).2 ho) List.not_mem_nil
  | cons o os =>
    have hnext : s.next = (some o.toWord, ⟨os.map Occurrence.toWord, o.toWord.line⟩) := by
      rw [Scanner.next, next?, ← hwords]
      rfl
    refine .inr ⟨o, isFirst_head hos, by rw [hnext], ?_⟩
    rw [hnext]
    exact ⟨⟨os, inOrder_tail hos, rfl⟩, rfl⟩

/-- The words that are skipped are those on the line of the last one. -/
theorem skipLine (h : s.Holds last skipped) : s.skipLine.Holds last true where
  rest := by
    obtain ⟨os, hos, hwords⟩ := h.rest
    have hmono : ∀ o ∈ os, s.line ≤ o.line := by
      intro o ho
      rw [h.line]
      cases last with
      | none => exact Nat.zero_le _
      | some p => exact Occurrence.line_mono (Nat.le_of_lt ((hos.mem_iff o).1 ho p rfl).1)
    have hsorted : s.rest.Pairwise (·.line ≤ ·.line) := by
      rw [← hwords]
      exact List.pairwise_map.2 (hos.sorted.imp fun hlt => Occurrence.line_mono (Nat.le_of_lt hlt))
    have hle : ∀ w ∈ s.rest, s.line ≤ w.line := by
      rw [← hwords]
      exact List.forall_mem_map.2 hmono
    refine ⟨os.filter fun o => o.line ≠ s.line, ⟨hos.sorted.filter _, fun o => ?_⟩, ?_⟩
    · rw [List.mem_filter, hos.mem_iff, decide_eq_true_eq, h.line]
      exact due_skipped_iff
    · show _ = s.rest.dropWhile _
      rw [dropWhile_line_eq_filter hsorted hle, ← hwords, List.filter_map]
      rfl
  line := h.line

end Scanner.Holds

theorem Scanner.next_of_nil (h : s.rest = []) : s.next = (none, s) := by
  rw [next, next?, h]

theorem Scanner.skipLine_of_nil (h : s.rest = []) : s.skipLine = s := by
  rw [skipLine, h]
  cases s
  cases h
  rfl

theorem Scanner.Holds.reads (h : s.Holds last skipped) (calls : List Call) :
    Reads cs last skipped calls (s.answers calls) := by
  induction calls generalizing s last skipped with
  | nil => exact .done
  | cons call calls ih =>
    cases call with
    | skipLine => exact .skipped (ih h.skipLine)
    | next =>
      show Reads cs last skipped _ (s.next.1 :: s.next.2.answers calls)
      rcases h.next with ⟨hnil, hnone⟩ | ⟨o, ho, hanswer, hnext⟩
      · rw [next_of_nil hnil]
        exact .ended hnone (ih h)
      · rw [hanswer]
        exact .word ho (ih hnext)

theorem Scanner.answers_of_nil (h : s.rest = []) (calls : List Call) : ∀ a ∈ s.answers calls, a = none := by
  induction calls with
  | nil => exact fun a ha => absurd ha List.not_mem_nil
  | cons call calls ih =>
    cases call with
    | skipLine =>
      show ∀ a ∈ s.skipLine.answers calls, a = none
      rwa [skipLine_of_nil h]
    | next =>
      show ∀ a ∈ s.next.1 :: s.next.2.answers calls, a = none
      rw [next_of_nil h]
      exact List.forall_mem_cons.2 ⟨rfl, ih⟩

theorem Scanner.pairwise_answers (s : Scanner) (calls : List Call) :
    (s.answers calls).Pairwise fun a b => a = none → b = none := by
  induction calls generalizing s with
  | nil => exact .nil
  | cons call calls ih =>
    cases call with
    | skipLine => exact ih s.skipLine
    | next =>
      refine List.pairwise_cons.2 ⟨fun b hb hnone => ?_, ih s.next.2⟩
      cases hrest : s.rest with
      | nil =>
        rw [next_of_nil hrest] at hb
        exact answers_of_nil hrest calls b hb
      | cons w ws =>
        rw [next, next?, hrest] at hnone
        cases hnone

/-- However calls for words and for the rest of a line to be skipped follow each other, the answers are
those that the occurrences of words in the text give, and those of a scanner that goes line by line. -/
theorem words_streamed (text : String) (calls : List Call) :
    (LineScanner.ofText text).answers calls = (Scanner.ofText text).answers calls ∧
    (∀ answers, Reads text.toList none false calls answers ↔ (Scanner.ofText text).answers calls = answers) ∧
    ((Scanner.ofText text).answers calls).Pairwise (fun a b => a = none → b = none) := by
  have hreads := (Scanner.Holds.ofText text).reads calls
  refine ⟨LineScanner.answers_eq text calls, fun answers => ⟨hreads.unique, ?_⟩, Scanner.pairwise_answers _ calls⟩
  rintro rfl
  exact hreads

/-- Separators and carriage returns are blanks inside a line, and nothing is skipped before the first word. -/
theorem words_streamed_mixedBlanks :
    (LineScanner.ofText "a\u2028b c\r\n\n d").answers
        [.skipLine, .next, .next, .skipLine, .next, .skipLine, .next, .next] =
      [some ⟨"a", 1⟩, some ⟨"b", 1⟩, some ⟨"d", 3⟩, none, none] := by
  obtain ⟨hlines, -, -⟩ := words_streamed "a\u2028b c\r\n\n d"
    [.skipLine, .next, .next, .skipLine, .next, .skipLine, .next, .next]
  rw [hlines]
  decide +kernel

end StackMachine.Text
