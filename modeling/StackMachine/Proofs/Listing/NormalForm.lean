import StackMachine.Proofs.Listing.RoundTrip

/-!
# The normal form of a listing

A program that was read from text can be written, as a file name that stood in a text is a word and all else
that a record can hold has a text of its own (`Datum.Writable`). Reading a listing and writing it again thus
brings it into a form that depends on nothing but the program (`Program.ofListing_normal_form`).
-/

namespace StackMachine

open Listing
open Text (Word isWord)

/-! ### Data that have a record -/

def Datum.Writable : Datum → Prop
  | .null | .integer _ | .real _ => True
  | .instruction i => isWord i.file.toList = true
  | .function _ | .list _ | .scope _ => False

instance (d : Datum) : Decidable d.Writable :=
  match d with
  | .null | .integer _ | .real _ => isTrue trivial
  | .instruction i => inferInstanceAs (Decidable (isWord i.file.toList = true))
  | .function _ | .list _ | .scope _ => isFalse not_false

namespace Listing

variable {ws : List Word} {d : Datum} {ds : List Datum}

theorem Fields.writable {kind : RecordKind} (h : Fields kind ws d)
    (hws : ∀ w ∈ ws, isWord w.text.toList = true) : d.Writable := by
  cases h with
  | @instruction v w file id line _ _ => exact hws file (by simp)
  | integer | real | text | null => trivial

theorem Records.writable (h : Records ws ds) (hws : ∀ w ∈ ws, isWord w.text.toList = true) :
    ∀ d ∈ ds, d.Writable := by
  induction h with
  | nil => exact fun d hd => absurd hd List.not_mem_nil
  | @cons kind tag fields ws d ds _ hfields _ ih =>
    obtain ⟨-, hrest⟩ := List.forall_mem_cons.1 hws
    obtain ⟨hfirst, hlater⟩ := List.forall_mem_append.1 hrest
    exact List.forall_mem_cons.2 ⟨hfields.writable hfirst, ih hlater⟩

theorem exists_record (h : d.Writable) (address : Nat) : ∃ line, record address d = .ok line := by
  cases d with
  | null | integer | real => exact ⟨_, rfl⟩
  | instruction i => exact ⟨_, if_pos h⟩
  | function | list | scope => exact h.elim

theorem exists_recordsFrom (h : ∀ d ∈ ds, d.Writable) (address : Nat) :
    ∃ lines, recordsFrom address ds = .ok lines := by
  induction ds generalizing address with
  | nil => exact ⟨[], rfl⟩
  | cons d ds ih =>
    obtain ⟨hd, hds⟩ := List.forall_mem_cons.1 h
    obtain ⟨line, hline⟩ := exists_record hd address
    obtain ⟨lines, hlines⟩ := ih hds (address + 1)
    refine ⟨line :: lines, ?_⟩
    rw [recordsFrom, hline, hlines]
    rfl

end Listing

/-! ### Programs -/

namespace Program

variable {p q : Program} {capacity : Nat} {text listing : String}

theorem beq_eq_true : (p == q) = true ↔ p = q := by
  obtain ⟨ps⟩ := p
  obtain ⟨qs⟩ := q
  show (ps == qs) = true ↔ _
  rw [beq_iff_eq, mk.injEq]

theorem writable_of_ofListing (h : Program.ofListing capacity text = .ok p) :
    ∀ d ∈ p.toList, d.Writable := by
  obtain ⟨ws, stop, rest, hlisted, hws, -, -⟩ := listed_of_ofListing h
  refine hws.writable fun w hw => ?_
  have hmem : w ∈ listed text := by
    rw [hlisted]
    exact List.mem_append_left _ hw
  exact isWord_of_mem_listed hmem

theorem exists_toListing (h : ∀ d ∈ p.toList, d.Writable) : ∃ listing, p.toListing = .ok listing := by
  obtain ⟨lines, hlines⟩ := exists_recordsFrom h 0
  unfold toListing
  rw [hlines]
  exact ⟨_, rfl⟩

theorem ofListing_of_toListing (h : p.toListing = .ok listing) (hle : p.size ≤ capacity) :
    Program.ofListing capacity listing = .ok p := by
  obtain ⟨ws, stop, hlisted, hws, hstop⟩ := listed_toListing h
  exact ofListing_of_terminator hlisted hws hle hstop

/-- Programs with the same listing are the same. -/
theorem toListing_inj (hp : p.toListing = .ok listing) (hq : q.toListing = .ok listing) : p = q := by
  have hread := ofListing_of_toListing hp (Nat.le_max_left p.size q.size)
  rw [ofListing_of_toListing hq (Nat.le_max_right p.size q.size)] at hread
  exact (Except.ok.inj hread).symm

/-- A program that was read from a text can be written, and what is written is read as this program. Any
other text that is read as a program is brought to the same form just if the two programs are equal. -/
theorem ofListing_normal_form (h : Program.ofListing capacity text = .ok p) :
    p.size ≤ capacity ∧ ∃ listing, p.toListing = .ok listing ∧
      Program.ofListing capacity listing = .ok p ∧
      (Program.ofListing capacity listing >>= toListing) = .ok listing ∧
      ∀ capacity' text' p', Program.ofListing capacity' text' = .ok p' →
        ((p' == p) = true ↔ p'.toListing = .ok listing) := by
  obtain ⟨-, -, -, -, -, hle, -⟩ := listed_of_ofListing h
  obtain ⟨listing, hlisting⟩ := exists_toListing (writable_of_ofListing h)
  have hread := ofListing_of_toListing hlisting hle
  refine ⟨hle, listing, hlisting, hread, ?_, ?_⟩
  · rw [hread]
    exact hlisting
  · intro capacity' text' p' _
    constructor
    · intro heq
      rw [beq_eq_true.1 heq]
      exact hlisting
    · intro hlisting'
      exact beq_eq_true.2 (toListing_inj hlisting' hlisting)

/-- A header, a record that goes over two lines, and numerals with signs, leading zeros and exponents. -/
theorem ofListing_normal_form_respelled :
    ∃ p, Program.ofListing 4 "bytecode 3\n int\n+5 flt 1E5 str nul\r\nist 01 +2 int source int" = .ok p ∧
      p.size ≤ 4 ∧ p.toListing = .ok "int 5\nflt 100000.0\nnul\nist 1 2 int\nsource\n" ∧
      Program.ofListing 4 "int 5\nflt 100000.0\nnul\nist 1 2 int\nsource\n" = .ok p := by
  have hlisted : listed "bytecode 3\n int\n+5 flt 1E5 str nul\r\nist 01 +2 int source int" =
      [⟨"int", 2⟩, ⟨"+5", 3⟩, ⟨"flt", 3⟩, ⟨"1E5", 3⟩, ⟨"str", 3⟩, ⟨"nul", 3⟩, ⟨"ist", 4⟩, ⟨"01", 4⟩,
        ⟨"+2", 4⟩, ⟨"int", 4⟩] ++ ⟨"source", 4⟩ :: [⟨"int", 4⟩] := by decide +kernel
  have hinteger : Fields .integer [⟨"+5", 3⟩] (.integer 5) := .integer (by decide +kernel)
  have hreal : Fields .real [⟨"1E5", 3⟩] (.real 100000) := .real (by decide +kernel)
  have hinstruction : Fields .instruction [⟨"01", 4⟩, ⟨"+2", 4⟩, ⟨"int", 4⟩] (.instruction ⟨1, 2, "int"⟩) :=
    .instruction (by decide +kernel) (by decide +kernel)
  have hrecords : Records
      [⟨"int", 2⟩, ⟨"+5", 3⟩, ⟨"flt", 3⟩, ⟨"1E5", 3⟩, ⟨"str", 3⟩, ⟨"nul", 3⟩, ⟨"ist", 4⟩, ⟨"01", 4⟩,
        ⟨"+2", 4⟩, ⟨"int", 4⟩] [.integer 5, .real 100000, .null, .instruction ⟨1, 2, "int"⟩] :=
    .cons (by rfl) hinteger (.cons (by rfl) hreal (.cons (by rfl) .text (.cons (by rfl) hinstruction .nil)))
  have h := Program.ofListing_of_terminator hlisted hrecords (Nat.le_refl 4) rfl
  have hwritten : (Program.ofList [.integer 5, .real 100000, .null, .instruction ⟨1, 2, "int"⟩]).toListing =
      .ok "int 5\nflt 100000.0\nnul\nist 1 2 int\nsource\n" := by decide +kernel
  obtain ⟨hle, listing, hlisting, hread, -, -⟩ := ofListing_normal_form h
  obtain rfl := Except.ok.inj (hwritten.symm.trans hlisting)
  exact ⟨_, h, hle, hwritten, hread⟩

end Program

end StackMachine
