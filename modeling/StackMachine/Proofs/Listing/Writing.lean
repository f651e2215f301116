import StackMachine.Proofs.Listing.NormalForm

/-!
# Which programs can be written

A program is written if all its data can be, and otherwise the first datum that cannot decides on the error,
whatever stands behind it (`recordsFrom_of_first`). What is written has one line for each datum and one for the
end, as no record has a line feed in it (`laidOut_of_toListing`). The main result is `toListing_spec`.
-/

namespace StackMachine

open Text (isBlank isWord_iff lineWords)

theorem Datum.writable_iff {d : Datum} : d.Writable ↔
    d = .null ∨ (∃ n, d = .integer n) ∨ (∃ x, d = .real x) ∨
      ∃ i, d = .instruction i ∧ i.file ≠ "" ∧ ∀ c ∈ i.file.toList, isBlank c = false := by
  cases d with
  | null | integer | real => simp [Datum.Writable]
  | instruction i => simp [Datum.Writable, isWord_iff]
  | function | list | scope => simp [Datum.Writable]

namespace Listing

variable {address : Nat} {d : Datum} {front rest ds : List Datum} {lines : List String}

def complaint (address : Nat) : Datum → Error
  | .instruction i => .unencodableFilename address i.file
  | d => .unencodableDatum address d.tag

theorem record_of_not_writable (hd : ¬d.Writable) (address : Nat) :
    record address d = .error (complaint address d) := by
  cases d with
  | null | integer | real => exact absurd trivial hd
  | instruction i => exact if_neg hd
  | function | list | scope => rfl

theorem recordsFrom_of_first (hfront : ∀ e ∈ front, e.Writable) (hd : ¬d.Writable) (address : Nat) :
    recordsFrom address (front ++ d :: rest) = .error (complaint (address + front.length) d) := by
  induction front generalizing address with
  | nil =>
    rw [List.nil_append, recordsFrom, record_of_not_writable hd]
    rfl
  | cons e front ih =>
    obtain ⟨he, hfront⟩ := List.forall_mem_cons.1 hfront
    obtain ⟨line, hline⟩ := exists_record he address
    rw [List.cons_append, recordsFrom, hline, ih hfront, List.length_cons, Nat.add_comm front.length 1,
      ← Nat.add_assoc]
    rfl

theorem getElem?_recordsFrom (h : recordsFrom address ds = .ok lines) :
    lines.length = ds.length ∧ ∀ (k : Nat) d line, ds[k]? = some d → lines[k]? = some line →
      record (address + k) d = .ok line := by
  induction ds generalizing address lines with
  | nil =>
    cases h
    exact ⟨rfl, by simp⟩
  | cons e ds ih =>
    obtain ⟨first, rest, rfl, hfirst, hrest⟩ := recordsFrom_cons h
    obtain ⟨hlength, hrecords⟩ := ih hrest
    refine ⟨congrArg (· + 1) hlength, ?_⟩
    intro k d line hd hline
    cases k with
    | zero =>
      cases hd
      cases hline
      exact hfirst
    | succ k =>
      rw [← Nat.add_assoc, Nat.add_right_comm]
      exact hrecords k d line hd hline

theorem newline_notMem_recordsFrom (h : recordsFrom address ds = .ok lines) :
    ∀ line ∈ lines, '\n' ∉ line.toList := by
  induction ds generalizing address lines with
  | nil =>
    cases h
    exact fun line hline => absurd hline List.not_mem_nil
  | cons d ds ih =>
    obtain ⟨first, rest, rfl, hfirst, hrest⟩ := recordsFrom_cons h
    exact List.forall_mem_cons.2 ⟨(record_words hfirst 0).1, ih hrest⟩

end Listing

namespace Program

open Listing

variable {p : Program} {k : Nat} {d : Datum} {text : String}

/-- At the address stands the first datum that cannot be written. -/
structure FirstUnwritable (p : Program) (k : Nat) (d : Datum) : Prop where
  datum : p.get? k = some d
  not_writable : ¬d.Writable
  least : ∀ j < k, ∀ e, p.get? j = some e → e.Writable

/-- The text has a line for each datum, with a complete record of it, and a last one for the end of the
listing. Each line ends with a line feed. -/
structure LaidOut (p : Program) (text : String) (lines : List String) : Prop where
  length : lines.length = p.size
  split : text.toList.splitOn '\n' = (lines ++ [terminator]).map String.toList ++ [[]]
  record : ∀ k d line, p.get? k = some d → lines[k]? = some line → Listing.record k d = .ok line
  words : ∀ k d line, p.get? k = some d → lines[k]? = some line →
    ∃ kind tag fs, lineWords (k + 1) line.toList = tag :: fs ∧ tag.text = RecordKind.tag kind ∧
      Fields kind fs d

theorem getElem?_toList (p : Program) (k : Nat) : p.toList[k]? = p.get? k := Array.getElem?_toList

theorem exists_firstUnwritable (h : ¬∀ d ∈ p.toList, d.Writable) : ∃ k d, p.FirstUnwritable k d := by
  have hex : ∃ k d, p.get? k = some d ∧ ¬d.Writable := by
    push Not at h
    obtain ⟨d, hmem, hd⟩ := h
    obtain ⟨k, hk⟩ := List.mem_iff_getElem?.1 hmem
    rw [getElem?_toList] at hk
    exact ⟨k, d, hk, hd⟩
  classical
  obtain ⟨d, hk, hd⟩ := Nat.find_spec hex
  refine ⟨Nat.find hex, d, hk, hd, ?_⟩
  intro j hj e he
  exact not_not.1 fun hnot => Nat.find_min hex hj ⟨e, he, hnot⟩

theorem FirstUnwritable.toList_eq (h : p.FirstUnwritable k d) :
    ∃ front rest, p.toList = front ++ d :: rest ∧ front.length = k ∧ ∀ e ∈ front, e.Writable := by
  have hd := h.datum
  rw [← getElem?_toList] at hd
  obtain ⟨hlt, hk⟩ := List.getElem?_eq_some_iff.1 hd
  refine ⟨p.toList.take k, p.toList.drop (k + 1), ?_, ?_, ?_⟩
  · rw [← hk, List.getElem_cons_drop, List.take_append_drop]
  · rw [List.length_take, Nat.min_eq_left (Nat.le_of_lt hlt)]
  · intro e he
    obtain ⟨j, hj⟩ := List.mem_iff_getElem?.1 he
    rw [List.getElem?_take] at hj
    split at hj
    · next hlt =>
      rw [getElem?_toList] at hj
      exact h.least j hlt e hj
    · cases hj

theorem FirstUnwritable.toListing (h : p.FirstUnwritable k d) : p.toListing = .error (complaint k d) := by
  obtain ⟨front, rest, hdata, rfl, hfront⟩ := h.toList_eq
  unfold Program.toListing
  rw [hdata, recordsFrom_of_first hfront h.not_writable, Nat.zero_add]
  rfl

theorem laidOut_of_toListing (h : p.toListing = .ok text) : ∃ lines, p.LaidOut text lines := by
  obtain ⟨lines, hlines, htext⟩ := lines_of_toListing h
  obtain ⟨hlength, hrecords⟩ := getElem?_recordsFrom hlines
  have hrecord : ∀ k d line, p.get? k = some d → lines[k]? = some line → Listing.record k d = .ok line := by
    intro k d line hd hline
    rw [← getElem?_toList] at hd
    rw [← Nat.zero_add k]
    exact hrecords k d line hd hline
  refine ⟨lines, ?_, ?_, hrecord, ?_⟩
  · exact hlength
  · rw [htext]
    refine splitOn_terminated (List.forall_mem_append.2 ⟨newline_notMem_recordsFrom hlines, ?_⟩)
    exact List.forall_mem_singleton.2 (by decide)
  · intro k d line hd hline
    exact (record_words (hrecord k d line hd hline) (k + 1)).2

/-- A program has a listing just if each datum is null, a number, or an instruction whose file name is a
word. Otherwise the error is that of the first datum that is none of these. -/
theorem toListing_spec (p : Program) :
    ((∃ text, p.toListing = .ok text) ↔ ∀ d ∈ p.toList, d.Writable) ∧
    (∀ d : Datum, d.Writable ↔ d = .null ∨ (∃ n, d = .integer n) ∨ (∃ x, d = .real x) ∨
      ∃ i, d = .instruction i ∧ i.file ≠ "" ∧ ∀ c ∈ i.file.toList, isBlank c = false) ∧
    (∀ e, p.toListing = .error e ↔ ∃ k d, p.FirstUnwritable k d ∧ e = complaint k d) ∧
    ∀ text, p.toListing = .ok text → ∃ lines, p.LaidOut text lines := by
  refine ⟨⟨?_, exists_toListing⟩, fun d => d.writable_iff, ?_, fun _ => laidOut_of_toListing⟩
  · rintro ⟨text, htext⟩
    by_contra hnot
    obtain ⟨k, d, hfirst⟩ := exists_firstUnwritable hnot
    rw [hfirst.toListing] at htext
    cases htext
  · intro e
    constructor
    · intro he
      have hnot : ¬∀ d ∈ p.toList, d.Writable := by
        intro hall
        obtain ⟨text, htext⟩ := exists_toListing hall
        rw [htext] at he
        cases he
      obtain ⟨k, d, hfirst⟩ := exists_firstUnwritable hnot
      rw [hfirst.toListing] at he
      exact ⟨k, d, hfirst, (Except.error.inj he).symm⟩
    · rintro ⟨k, d, hfirst, rfl⟩
      exact hfirst.toListing

/-- An id that is of no instruction can be written, and a list is not reached behind a name of two words. -/
theorem toListing_spec_nameOfTwoWords :
    (∃ lines, (Program.ofList [.integer (-3), .instruction ⟨777, 1, "f"⟩]).LaidOut
      "int -3\nist 777 1 f\nsource\n" lines) ∧
    (Program.ofList [.null, .instruction ⟨0, 1, "my file"⟩, .list []]).toListing =
      .error (.unencodableFilename 1 "my file") := by
  have hwritten : (Program.ofList [.integer (-3), .instruction ⟨777, 1, "f"⟩]).toListing =
      .ok "int -3\nist 777 1 f\nsource\n" := by decide +kernel
  refine ⟨(toListing_spec _).2.2.2 _ hwritten, ((toListing_spec _).2.2.1 _).2 ⟨1, _, ⟨rfl, ?_, ?_⟩, rfl⟩⟩
  · decide
  · intro j hj e he
    obtain rfl : j = 0 := Nat.lt_one_iff.1 hj
    cases he
    exact trivial

end Program

end StackMachine
