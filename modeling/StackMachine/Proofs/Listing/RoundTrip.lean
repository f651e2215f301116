import StackMachine.Listing.Writer
import StackMachine.Proofs.Listing.Grammar
import StackMachine.Proofs.Numeral.Reals

/-!
# Writing and reading back

The line of a datum has the words of a complete record (`record_spaced`), and no record starts with the
word that would open a listing. So what is written for a program is a listing of it, and is read as this
program if there is room for it (`Program.ofListing_toListing`).
-/

namespace StackMachine.Listing

open Text (Word isWord isWord_iff lineWords lineWords_cons lineWords_word newline_notMem_of_isWord wordsFrom
  linesWords)

variable {address line : Nat} {d : Datum} {ds : List Datum} {record : String} {lines : List String}
  {ws : List Word}

/-! ### One line -/

def spaced (ws : List String) : List Char :=
  [' '].intercalate (ws.map String.toList)

theorem spaced_singleton (w : String) : spaced [w] = w.toList := by
  simp [spaced]

theorem spaced_cons_cons (v w : String) (ws : List String) :
    spaced (v :: w :: ws) = v.toList ++ ' ' :: spaced (w :: ws) := by
  simp [spaced]

theorem newline_notMem_spaced {w : String} {ws : List String}
    (h : ∀ v ∈ w :: ws, isWord v.toList = true) : '\n' ∉ spaced (w :: ws) := by
  obtain ⟨hw, hws⟩ := List.forall_mem_cons.1 h
  induction ws generalizing w with
  | nil =>
    rw [spaced_singleton]
    exact newline_notMem_of_isWord hw
  | cons v ws ih =>
    obtain ⟨hv, hrest⟩ := List.forall_mem_cons.1 hws
    rw [spaced_cons_cons, List.mem_append, List.mem_cons, not_or, not_or]
    exact ⟨newline_notMem_of_isWord hw, by decide, ih hws hv hrest⟩

theorem lineWords_spaced {w : String} {ws : List String} (h : ∀ v ∈ w :: ws, isWord v.toList = true) :
    lineWords line (spaced (w :: ws)) = (w :: ws).map (⟨·, line⟩) := by
  obtain ⟨hw, hws⟩ := List.forall_mem_cons.1 h
  induction ws generalizing w with
  | nil => rw [spaced_singleton, lineWords_word hw, String.ofList_toList]; rfl
  | cons v ws ih =>
    obtain ⟨hv, hrest⟩ := List.forall_mem_cons.1 hws
    rw [spaced_cons_cons, lineWords_cons hw (by decide), ih hws hv hrest, String.ofList_toList]
    rfl

theorem record_spaced (h : Listing.record address d = .ok record) :
    ∃ kind ws, record.toList = spaced (RecordKind.tag kind :: ws) ∧
      (∀ w ∈ RecordKind.tag kind :: ws, isWord w.toList = true) ∧
      ∀ line, Fields kind (ws.map (⟨·, line⟩)) d := by
  cases d with
  | null =>
    cases h
    refine ⟨.null, [], by rw [spaced_singleton]; rfl, by decide, fun _ => .null⟩
  | integer n =>
    cases h
    have hread := Numeral.int64?_toString n
    refine ⟨.integer, [toString n.toInt], ?_, ?_, fun _ => .integer hread⟩
    · rw [String.toList_append, spaced_cons_cons, spaced_singleton]
      rfl
    · have hword := Numeral.isWord_of_int64? hread
      exact List.forall_mem_cons.2 ⟨by decide, List.forall_mem_singleton.2 hword⟩
  | real x =>
    cases h
    have hread := Numeral.real?_shortest x
    refine ⟨.real, [Numeral.shortest x], ?_, ?_, fun _ => .real hread⟩
    · rw [String.toList_append, spaced_cons_cons, spaced_singleton]
      rfl
    · have hword := Numeral.isWord_shortest x
      exact List.forall_mem_cons.2 ⟨by decide, List.forall_mem_singleton.2 hword⟩
  | instruction i =>
    simp only [Listing.record] at h
    split at h
    · next hfile =>
      cases h
      have hid := Numeral.uint32?_toString i.id
      have hline := Numeral.uint32?_toString i.line
      refine ⟨.instruction, [toString i.id.toNat, toString i.line.toNat, i.file], ?_, ?_,
        fun _ => .instruction hid hline⟩
      · simp only [String.toList_append, spaced_cons_cons, spaced_singleton, List.append_assoc]
        rfl
      · simp only [List.forall_mem_cons]
        exact ⟨by decide, Numeral.isWord_of_uint32? hid, Numeral.isWord_of_uint32? hline, hfile, by simp⟩
    · cases h
  | _ => cases h

theorem record_words (h : Listing.record address d = .ok record) (line : Nat) :
    '\n' ∉ record.toList ∧ ∃ kind tag fs, lineWords line record.toList = tag :: fs ∧
      tag.text = RecordKind.tag kind ∧ Fields kind fs d := by
  obtain ⟨kind, ws, hrecord, hwords, hfields⟩ := record_spaced h
  rw [hrecord]
  exact ⟨newline_notMem_spaced hwords, kind, ⟨kind.tag, line⟩, _, lineWords_spaced hwords, rfl,
    hfields line⟩

/-! ### All lines -/

def terminated (lines : List String) : List Char :=
  (String.join (lines.map (· ++ "\n"))).toList

theorem terminated_cons (l : String) (ls : List String) :
    terminated (l :: ls) = l.toList ++ '\n' :: terminated ls := by
  simp [terminated]

theorem splitOn_terminated (h : ∀ line ∈ lines, '\n' ∉ line.toList) :
    (terminated lines).splitOn '\n' = lines.map String.toList ++ [[]] := by
  induction lines with
  | nil => rfl
  | cons line lines ih =>
    obtain ⟨hline, hlines⟩ := List.forall_mem_cons.1 h
    rw [terminated_cons, List.splitOn_append_cons_self_of_not_mem hline, ih hlines]
    rfl

theorem recordsFrom_cons (h : recordsFrom address (d :: ds) = .ok lines) :
    ∃ l ls, lines = l :: ls ∧ Listing.record address d = .ok l ∧
      recordsFrom (address + 1) ds = .ok ls := by
  rw [recordsFrom] at h
  cases hl : Listing.record address d with
  | error e =>
    rw [hl] at h
    cases h
  | ok l =>
    cases hls : recordsFrom (address + 1) ds with
    | error e =>
      rw [hl, hls] at h
      cases h
    | ok ls =>
      rw [hl, hls] at h
      cases h
      exact ⟨l, ls, rfl, rfl, rfl⟩

theorem wordsFrom_terminator (line : Nat) :
    wordsFrom line (terminated [terminator]) = [⟨terminator, line⟩] := by
  rw [terminated_cons, Text.wordsFrom_append (by decide), lineWords_word (by decide),
    String.ofList_toList]
  show [⟨terminator, line⟩] ++ wordsFrom (line + 1) [] = _
  rw [wordsFrom, List.append_nil]

/-- What is written for some data are complete records with these data. -/
theorem wordsFrom_recordsFrom (h : recordsFrom address ds = .ok lines) (line : Nat) :
    ∃ ws, wordsFrom line (terminated (lines ++ [terminator])) =
        ws ++ [⟨terminator, line + lines.length⟩] ∧ Records ws ds := by
  induction ds generalizing address lines line with
  | nil =>
    cases h
    exact ⟨[], wordsFrom_terminator line, .nil⟩
  | cons d ds ih =>
    obtain ⟨l, ls, rfl, hl, hls⟩ := recordsFrom_cons h
    obtain ⟨hnewline, kind, tag, fs, hwords, htag, hfields⟩ := record_words hl line
    obtain ⟨ws, hws, hrecords⟩ := ih hls (line + 1)
    have hlast : line + (l :: ls).length = line + 1 + ls.length := by
      rw [List.length_cons]
      omega
    refine ⟨tag :: (fs ++ ws), ?_, .cons htag hfields hrecords⟩
    rw [List.cons_append, terminated_cons, Text.wordsFrom_append hnewline, hwords, hws, hlast]
    simp

theorem Records.head_ne_opening (h : Records ws ds) {w stop : Word} {rest : List Word}
    (hw : ws ++ [stop] = w :: rest) (hstop : stop.text = terminator) : w.text ≠ opening := by
  cases h with
  | nil =>
    obtain rfl : stop = w := (List.cons.inj hw).1
    rw [hstop]
    decide
  | @cons kind tag fs ws d ds htag hfields hrecords =>
    obtain rfl : tag = w := (List.cons.inj hw).1
    rw [htag]
    cases kind <;> decide

theorem listed_eq_of_records (h : Records ws ds) {stop : Word} {text : String}
    (hw : linesWords 1 text.toList = ws ++ [stop]) (hstop : stop.text = terminator) :
    listed text = ws ++ [stop] := by
  unfold listed
  dsimp only
  split
  · next heq =>
    rw [hw] at heq
    simp at heq
  · next w rest heq =>
    rw [hw] at heq
    rw [if_neg (h.head_ne_opening heq hstop), hw]

end StackMachine.Listing

namespace StackMachine

open Listing
open Text (Word)

theorem Program.lines_of_toListing {p : Program} {text : String} (h : p.toListing = .ok text) :
    ∃ lines, recordsFrom 0 p.toList = .ok lines ∧ text.toList = terminated (lines ++ [terminator]) := by
  cases hlines : recordsFrom 0 p.toList with
  | error e =>
    rw [toListing, hlines] at h
    cases h
  | ok lines =>
    rw [toListing, hlines] at h
    cases h
    exact ⟨lines, rfl, rfl⟩

theorem Program.listed_toListing {p : Program} {text : String} (h : p.toListing = .ok text) :
    ∃ ws stop, listed text = ws ++ [stop] ∧ Records ws p.toList ∧ stop.text = terminator := by
  obtain ⟨lines, hlines, htext⟩ := lines_of_toListing h
  obtain ⟨ws, hws, hrecords⟩ := wordsFrom_recordsFrom hlines 1
  rw [← htext, Text.wordsFrom_eq_linesWords] at hws
  exact ⟨ws, _, listed_eq_of_records hrecords hws rfl, hrecords, rfl⟩

/-- The record of each datum can be found among the records. -/
theorem Listing.Records.split {ws : List Word} {ds : List Datum} (h : Records ws ds) {n : Nat}
    (hn : n < ds.length) : ∃ vs kind tag fs rest d, ws = vs ++ tag :: (fs ++ rest) ∧
      Records vs (ds.take n) ∧ tag.text = RecordKind.tag kind ∧ Fields kind fs d := by
  induction h generalizing n with
  | nil => exact absurd hn (Nat.not_lt_zero n)
  | @cons kind tag fs ws d ds htag hfields hrecords ih =>
    cases n with
    | zero => exact ⟨[], kind, tag, fs, ws, d, rfl, .nil, htag, hfields⟩
    | succ n =>
      have hn' : n < ds.length := Nat.lt_of_succ_lt_succ hn
      obtain ⟨vs, kind', tag', fs', rest, d', rfl, hvs, htag', hfields'⟩ := ih hn'
      refine ⟨tag :: (fs ++ vs), kind', tag', fs', rest, d', ?_, ?_, htag', hfields'⟩
      · simp
      · exact .cons htag hfields hvs

/-- What is written for a program is read as this program if it fits the capacity. -/
theorem Program.ofListing_toListing {p : Program} {text : String} (h : p.toListing = .ok text) :
    (∀ capacity, Program.ofListing capacity text =
      if p.size ≤ capacity then .ok p else .error (.capacityExceeded capacity)) ∧
    (Program.ofListing maxSize text = .ok p ↔ p.size ≤ maxSize) := by
  obtain ⟨ws, stop, hlisted, hrecords, hstop⟩ := listed_toListing h
  have hread : ∀ capacity, Program.ofListing capacity text =
      if p.size ≤ capacity then .ok p else .error (.capacityExceeded capacity) := by
    intro capacity
    by_cases hle : p.size ≤ capacity
    · rw [if_pos hle]
      exact ofListing_of_terminator hlisted hrecords hle hstop
    · rw [if_neg hle]
      have hlt : capacity < p.toList.length := Nat.lt_of_not_le hle
      obtain ⟨vs, kind, tag, fs, rest, d, rfl, hvs, htag, hfields⟩ := hrecords.split hlt
      have hlength : (p.toList.take capacity).length = capacity := by
        rw [List.length_take, Nat.min_eq_left (Nat.le_of_lt hlt)]
      have hsplit : listed text = vs ++ tag :: (fs ++ (rest ++ [stop])) := by
        rw [hlisted]
        simp
      exact ofListing_of_stops hsplit hvs (Nat.le_of_eq hlength) (.full htag hfields hlength)
  refine ⟨hread, ?_⟩
  rw [hread maxSize]
  by_cases hle : p.size ≤ maxSize
  · simp [hle]
  · simp [hle]

theorem Program.ofListing_toListing_tagsAsFiles :
    ∃ p text, p.toListing = .ok text ∧ p.size = 5 ∧ Program.ofListing 5 text = .ok p ∧
      Program.ofListing 4 text = .error (.capacityExceeded 4) := by
  have h : (Program.ofList [.instruction ⟨19, 2, "bytecode"⟩, .integer (-5), .real (-0.5), .null,
      .instruction ⟨300, 0, "source"⟩]).toListing =
        .ok "ist 19 2 bytecode\nint -5\nflt -0.5\nnul\nist 300 0 source\nsource\n" := by
    decide +kernel
  obtain ⟨hread, -⟩ := Program.ofListing_toListing h
  exact ⟨_, _, h, rfl, (hread 5).trans (if_pos (by decide)), (hread 4).trans (if_neg (by decide))⟩

end StackMachine
