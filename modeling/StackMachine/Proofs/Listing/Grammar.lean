import Mathlib.Data.List.Forall2
import StackMachine.Listing.Reader
import StackMachine.Proofs.Text.Words

/-!
# The grammar of listings

A listing is read if it consists of complete records (`Records`) up to a terminator, and then gives
their data. Otherwise some records are complete and what follows them stops the reader (`Stops`).
-/

namespace StackMachine.Listing

open Text (Word)

/-! ### The grammar -/

namespace RecordKind

def layout : RecordKind → List Field
  | .integer | .real => [.value]
  | .instruction => [.opcodeId, .lineNumber, .filename]
  | .text => [.token]
  | .null => []

def Accepts : RecordKind → Field → String → Prop
  | .integer, .value, s => ∃ n, Numeral.int64? s = some n
  | .real, .value, s => ∃ x, Numeral.real? s = some x
  | .instruction, .opcodeId, s | .instruction, .lineNumber, s => ∃ n, Numeral.uint32? s = some n
  | _, _, _ => True

end RecordKind

/-- The words behind the tag of a complete record, and its datum. -/
inductive Fields : RecordKind → List Word → Datum → Prop
  | integer {w : Word} {n : Int64} : Numeral.int64? w.text = some n → Fields .integer [w] (.integer n)
  | real {w : Word} {x : Float} : Numeral.real? w.text = some x → Fields .real [w] (.real x)
  | instruction {v w file : Word} {id line : UInt32} : Numeral.uint32? v.text = some id →
    Numeral.uint32? w.text = some line →
    Fields .instruction [v, w, file] (.instruction ⟨id, line, file.text⟩)
  | text {w : Word} : Fields .text [w] .null
  | null : Fields .null [] .null

inductive Records : List Word → List Datum → Prop
  | nil : Records [] []
  | cons {kind : RecordKind} {tag : Word} {fields ws : List Word} {d : Datum} {ds : List Datum} :
    tag.text = kind.tag → Fields kind fields d → Records ws ds →
    Records (tag :: (fields ++ ws)) (d :: ds)

/-- The words are those of the given fields, each of them valid. -/
def Begins (kind : RecordKind) (fs : List Field) (ws : List Word) : Prop :=
  List.Forall₂ (fun f w => kind.Accepts f w.text) fs ws

/-- What is wrong with a field of the record that `tag` opened: its word is missing or is no numeral. -/
inductive FieldStops (k : Nat) (tag : Word) (kind : RecordKind) (f : Field) : List Word → Error → Prop
  | missing : FieldStops k tag kind f [] (.missingField k tag.line kind f)
  | invalid {w : Word} {rest : List Word} : ¬kind.Accepts f w.text →
    FieldStops k tag kind f (w :: rest) (.invalidNumber k w.line w.text)

/-- What is wrong behind `k` records. -/
inductive Stops (capacity k : Nat) : List Word → Error → Prop
  | ended : Stops capacity k [] (.missingTerminator k)
  | unknown {tag : Word} {rest : List Word} : tag.text ≠ terminator →
    (∀ kind : RecordKind, tag.text ≠ kind.tag) →
    Stops capacity k (tag :: rest) (.unknownRecord k tag.line tag.text)
  | field {kind : RecordKind} {tag : Word} {ws rest : List Word} {f : Field}
    {before after : List Field} {e : Error} : tag.text = kind.tag →
    kind.layout = before ++ f :: after → Begins kind before ws →
    FieldStops k tag kind f rest e → Stops capacity k (tag :: (ws ++ rest)) e
  | full {kind : RecordKind} {tag : Word} {ws rest : List Word} {d : Datum} :
    tag.text = kind.tag → Fields kind ws d → k = capacity →
    Stops capacity k (tag :: (ws ++ rest)) (.capacityExceeded capacity)

variable {capacity k : Nat} {kind : RecordKind} {tag : Word} {ws rest : List Word} {d : Datum}
  {e : Error}

/-! ### One field -/

section

variable {α : Type} {parse : String → Option α} {f : Field} {w : Word}

theorem number_of_some {a : α} (h : parse w.text = some a) :
    number parse k tag kind f (w :: ws) = .ok (a, ws) := by
  simp only [number, field, bind, Except.bind, h]

theorem FieldStops.number_eq (h : FieldStops k tag kind f ws e)
    (haccepts : ∀ s, (∃ a, parse s = some a) → kind.Accepts f s) :
    number parse k tag kind f ws = .error e := by
  cases h with
  | missing => rfl
  | @invalid w rest hw =>
    have hnone : parse w.text = none := by
      refine Option.eq_none_iff_forall_ne_some.2 ?_
      intro a ha
      exact hw (haccepts _ ⟨a, ha⟩)
    simp only [number, field, bind, Except.bind, hnone]

theorem FieldStops.field_eq (h : FieldStops k tag kind f ws e) (haccepts : ∀ s, kind.Accepts f s) :
    field k tag kind f ws = .error e := by
  cases h with
  | missing => rfl
  | invalid hw => exact absurd (haccepts _) hw

end

/-! ### One record -/

theorem Fields.fields_eq (h : Fields kind ws d) : fields k tag kind (ws ++ rest) = .ok (d, rest) := by
  cases h with
  | integer hn =>
    show (number _ k tag _ _ (_ :: rest)).bind _ = _
    rw [number_of_some hn]
    rfl
  | real hx =>
    show (number _ k tag _ _ (_ :: rest)).bind _ = _
    rw [number_of_some hx]
    rfl
  | @instruction v w file id line hid hline =>
    show (number _ k tag _ _ (v :: w :: file :: rest)).bind _ = _
    rw [number_of_some hid]
    show (number _ k tag _ _ (w :: file :: rest)).bind _ = _
    rw [number_of_some hline]
    rfl
  | text => rfl
  | null => rfl

theorem FieldStops.fields_eq {f : Field} {before after : List Field}
    (hlayout : kind.layout = before ++ f :: after) (hws : Begins kind before ws)
    (h : FieldStops k tag kind f rest e) : fields k tag kind (ws ++ rest) = .error e := by
  cases kind with
  | integer =>
    rcases before with _ | ⟨b, before⟩
    · obtain rfl : Field.value = f := (List.cons.inj hlayout).1
      cases hws
      show (number _ k tag _ _ rest).bind _ = _
      rw [h.number_eq fun _ => id]
      rfl
    · simp [RecordKind.layout] at hlayout
  | real =>
    rcases before with _ | ⟨b, before⟩
    · obtain rfl : Field.value = f := (List.cons.inj hlayout).1
      cases hws
      show (number _ k tag _ _ rest).bind _ = _
      rw [h.number_eq fun _ => id]
      rfl
    · simp [RecordKind.layout] at hlayout
  | instruction =>
    rcases before with _ | ⟨b, _ | ⟨b', _ | ⟨b'', before⟩⟩⟩
    · obtain rfl : Field.opcodeId = f := (List.cons.inj hlayout).1
      cases hws
      show (number _ k tag _ _ rest).bind _ = _
      rw [h.number_eq fun _ => id]
      rfl
    · obtain ⟨rfl, rfl, -⟩ : Field.opcodeId = b ∧ Field.lineNumber = f ∧ _ := by
        simpa [RecordKind.layout] using hlayout
      obtain ⟨v, _, ⟨n, hid⟩, hnil, rfl⟩ := List.forall₂_cons_left_iff.1 hws
      cases hnil
      show (number _ k tag _ _ (v :: rest)).bind _ = _
      rw [number_of_some hid]
      show (number _ k tag _ _ rest).bind _ = _
      rw [h.number_eq fun _ => id]
      rfl
    · obtain ⟨rfl, rfl, rfl, -⟩ :
          Field.opcodeId = b ∧ Field.lineNumber = b' ∧ Field.filename = f ∧ _ := by
        simpa [RecordKind.layout] using hlayout
      obtain ⟨v, _, ⟨n, hid⟩, hrest, rfl⟩ := List.forall₂_cons_left_iff.1 hws
      obtain ⟨w, _, ⟨n', hline⟩, hnil, rfl⟩ := List.forall₂_cons_left_iff.1 hrest
      cases hnil
      show (number _ k tag _ _ (v :: w :: rest)).bind _ = _
      rw [number_of_some hid]
      show (number _ k tag _ _ (w :: rest)).bind _ = _
      rw [number_of_some hline]
      show (field k tag _ _ rest).bind _ = _
      rw [h.field_eq fun _ => trivial]
      rfl
    · simp [RecordKind.layout] at hlayout
  | text =>
    rcases before with _ | ⟨b, before⟩
    · obtain rfl : Field.token = f := (List.cons.inj hlayout).1
      cases hws
      show (field k tag _ _ rest).bind _ = _
      rw [h.field_eq fun _ => trivial]
      rfl
    · simp [RecordKind.layout] at hlayout
  | null => simp [RecordKind.layout] at hlayout

theorem field_cases (k : Nat) (tag : Word) (kind : RecordKind) (f : Field) (ws : List Word) :
    (∃ w rest, ws = w :: rest ∧ kind.Accepts f w.text) ∨ ∃ e, FieldStops k tag kind f ws e := by
  cases ws with
  | nil => exact .inr ⟨_, .missing⟩
  | cons w rest =>
    by_cases hw : kind.Accepts f w.text
    · exact .inl ⟨w, rest, rfl, hw⟩
    · exact .inr ⟨_, .invalid hw⟩

/-- The fields are all there, or the first of them that is missing or invalid stops the reader. -/
theorem begins_cases (k : Nat) (tag : Word) (kind : RecordKind) (fs : List Field) (ws : List Word) :
    (∃ vs rest, ws = vs ++ rest ∧ Begins kind fs vs) ∨
      ∃ vs rest before f after e, ws = vs ++ rest ∧ fs = before ++ f :: after ∧ Begins kind before vs ∧
        FieldStops k tag kind f rest e := by
  induction fs generalizing ws with
  | nil => exact .inl ⟨[], ws, rfl, .nil⟩
  | cons f fs ih =>
    rcases field_cases k tag kind f ws with ⟨w, ws, rfl, hw⟩ | ⟨e, hstop⟩
    · rcases ih ws with ⟨vs, rest, rfl, hvs⟩ | ⟨vs, rest, before, g, after, e, rfl, rfl, hvs, hstop⟩
      · have hbegins : Begins kind (f :: fs) (w :: vs) := .cons hw hvs
        exact .inl ⟨w :: vs, rest, rfl, hbegins⟩
      · have hbegins : Begins kind (f :: before) (w :: vs) := .cons hw hvs
        exact .inr ⟨w :: vs, rest, f :: before, g, after, e, rfl, rfl, hbegins, hstop⟩
    · exact .inr ⟨[], ws, [], f, fs, e, rfl, rfl, .nil, hstop⟩

theorem exists_fields (h : Begins kind kind.layout ws) : ∃ d, Fields kind ws d := by
  cases kind with
  | integer =>
    obtain ⟨w, _, ⟨n, hn⟩, hnil, rfl⟩ := List.forall₂_cons_left_iff.1 h
    cases hnil
    exact ⟨_, .integer hn⟩
  | real =>
    obtain ⟨w, _, ⟨x, hx⟩, hnil, rfl⟩ := List.forall₂_cons_left_iff.1 h
    cases hnil
    exact ⟨_, .real hx⟩
  | instruction =>
    obtain ⟨v, _, ⟨id, hid⟩, h1, rfl⟩ := List.forall₂_cons_left_iff.1 h
    obtain ⟨w, _, ⟨line, hline⟩, h2, rfl⟩ := List.forall₂_cons_left_iff.1 h1
    obtain ⟨file, _, -, hnil, rfl⟩ := List.forall₂_cons_left_iff.1 h2
    cases hnil
    exact ⟨_, .instruction hid hline⟩
  | text =>
    obtain ⟨w, _, -, hnil, rfl⟩ := List.forall₂_cons_left_iff.1 h
    cases hnil
    exact ⟨_, .text⟩
  | null =>
    cases h
    exact ⟨_, .null⟩

/-! ### One step of the reader -/

variable {code : Array Datum}

theorem tag_ne_terminator (kind : RecordKind) : kind.tag ≠ terminator := by
  cases kind <;> decide

theorem records_nil : records capacity code [] = .error (.missingTerminator code.size) := by
  rw [records]

theorem records_of_terminator (h : tag.text = terminator) :
    records capacity code (tag :: ws) = .ok ⟨code⟩ := by
  rw [records, if_pos h]

theorem records_of_unknown (hstop : tag.text ≠ terminator)
    (hunknown : ∀ kind : RecordKind, tag.text ≠ kind.tag) :
    records capacity code (tag :: ws) = .error (.unknownRecord code.size tag.line tag.text) := by
  have hnone : RecordKind.ofTag? tag.text = none := by
    refine Option.eq_none_iff_forall_ne_some.2 ?_
    intro kind hkind
    exact hunknown kind (RecordKind.ofTag?_eq_some_iff.1 hkind).symm
  rw [records, if_neg hstop]
  simp only [hnone]

theorem records_of_error (htag : tag.text = kind.tag) (h : fields code.size tag kind ws = .error e) :
    records capacity code (tag :: ws) = .error e := by
  rw [records, if_neg (htag ▸ tag_ne_terminator kind)]
  simp only [RecordKind.ofTag?_eq_some_iff.2 htag.symm]
  split
  · next h' =>
    rw [h] at h'
    cases h'
    rfl
  · next h' =>
    rw [h] at h'
    cases h'

theorem records_of_ok (htag : tag.text = kind.tag) (h : fields code.size tag kind ws = .ok (d, rest)) :
    records capacity code (tag :: ws) =
      if capacity ≤ code.size then .error (.capacityExceeded capacity)
      else records capacity (code.push d) rest := by
  rw [records, if_neg (htag ▸ tag_ne_terminator kind)]
  simp only [RecordKind.ofTag?_eq_some_iff.2 htag.symm]
  split
  · next h' =>
    rw [h] at h'
    cases h'
  · next h' =>
    rw [h] at h'
    cases h'
    rfl

/-! ### The whole reader -/

/-- Complete records are read if there is room for them. -/
theorem Records.records_eq {ds : List Datum} (h : Records ws ds) (code : Array Datum)
    (hle : code.size + ds.length ≤ capacity) :
    records capacity code (ws ++ rest) = records capacity (code ++ ds.toArray) rest := by
  induction h generalizing code with
  | nil => simp
  | @cons kind tag vs ws d ds htag hvs _ ih =>
    rw [List.length_cons] at hle
    rw [List.cons_append, List.append_assoc, records_of_ok htag hvs.fields_eq, if_neg (by omega),
      ih (code.push d) (by rw [Array.size_push]; omega)]
    simp

theorem Stops.records_eq (h : Stops capacity code.size ws e) : records capacity code ws = .error e := by
  cases h with
  | ended => exact records_nil
  | unknown hstop hunknown => exact records_of_unknown hstop hunknown
  | field htag hlayout hbegins hstop => exact records_of_error htag (hstop.fields_eq hlayout hbegins)
  | full htag hfields hk => rw [records_of_ok htag hfields.fields_eq, if_pos (Nat.le_of_eq hk.symm)]

/-- Behind some complete records there is the terminator, or something that stops the reader. -/
theorem records_cases (ws : List Word) (code : Array Datum) (hle : code.size ≤ capacity) :
    ∃ vs ds rest, ws = vs ++ rest ∧ Records vs ds ∧ code.size + ds.length ≤ capacity ∧
      ((∃ stop after, rest = stop :: after ∧ stop.text = terminator) ∨
        ∃ e, Stops capacity (code.size + ds.length) rest e) := by
  induction h : ws.length using Nat.strong_induction_on generalizing ws code with
  | _ n ih =>
  subst h
  cases ws with
  | nil => exact ⟨[], [], [], rfl, .nil, hle, .inr ⟨_, .ended⟩⟩
  | cons tag ws =>
    by_cases hstop : tag.text = terminator
    · exact ⟨[], [], _, rfl, .nil, hle, .inl ⟨tag, ws, rfl, hstop⟩⟩
    by_cases hkind : ∃ kind : RecordKind, tag.text = kind.tag
    · obtain ⟨kind, htag⟩ := hkind
      rcases begins_cases code.size tag kind kind.layout ws with
        ⟨vs, rest, rfl, hvs⟩ | ⟨vs, rest, before, f, after, e, rfl, hlayout, hbegins, hfield⟩
      · obtain ⟨d, hfields⟩ := exists_fields hvs
        rcases Nat.lt_or_ge code.size capacity with hlt | hge
        · have hlen : rest.length < (tag :: (vs ++ rest)).length := by
            rw [List.length_cons, List.length_append]
            omega
          obtain ⟨vs', ds, rest', rfl, hrecords, hle', hend⟩ :=
            ih rest.length hlen rest (code.push d) (by rw [Array.size_push]; omega) rfl
          rw [Array.size_push] at hle' hend
          have hsplit : tag :: (vs ++ (vs' ++ rest')) = tag :: (vs ++ vs') ++ rest' := by simp
          have hsize : code.size + (d :: ds).length = code.size + 1 + ds.length := by
            rw [List.length_cons]
            omega
          refine ⟨tag :: (vs ++ vs'), d :: ds, rest', hsplit, .cons htag hfields hrecords, ?_, ?_⟩
          · rw [hsize]
            exact hle'
          · rw [hsize]
            exact hend
        · have hfull : code.size = capacity := Nat.le_antisymm hle hge
          exact ⟨[], [], _, rfl, .nil, hle, .inr ⟨_, .full htag hfields hfull⟩⟩
      · exact ⟨[], [], _, rfl, .nil, hle, .inr ⟨e, .field htag hlayout hbegins hfield⟩⟩
    · have hunknown : ∀ kind : RecordKind, tag.text ≠ kind.tag := by
        intro kind htag
        exact hkind ⟨kind, htag⟩
      exact ⟨[], [], _, rfl, .nil, hle, .inr ⟨_, .unknown hstop hunknown⟩⟩

/-! ### Listings -/

/-- The words that a listing consists of. If the first one of the text opens a listing, it is left out
with the other words of its line. -/
def listed (text : String) : List Word :=
  let ws := Text.linesWords 1 text.toList
  match ws with
  | [] => []
  | w :: _ => if w.text = opening then ws.filter (fun v => v.line ≠ w.line) else ws

theorem body_eq_listed (text : String) : body text = listed text := by
  have hsorted := (Text.wordsFrom_sorted 1 text.toList).2
  unfold listed
  rw [← Text.words_eq_linesWords]
  unfold body Text.Scanner.ofText Text.Scanner.next? Text.words
  dsimp only
  cases h : Text.wordsFrom 1 text.toList with
  | nil => rfl
  | cons w ws =>
    dsimp only
    rw [h] at hsorted
    obtain ⟨hw, hws⟩ := List.pairwise_cons.1 hsorted
    split
    · rw [List.filter_cons_of_neg (by simp)]
      exact Text.dropWhile_line_eq_filter hws hw
    · rfl

theorem isWord_of_mem_listed {text : String} {w : Word} (hw : w ∈ listed text) :
    Text.isWord w.text.toList = true := by
  unfold listed at hw
  rw [← Text.words_eq_linesWords] at hw
  dsimp only at hw
  split at hw
  · cases hw
  · split at hw
    · exact Text.isWord_of_mem_wordsFrom _ _ w (List.mem_of_mem_filter hw)
    · exact Text.isWord_of_mem_wordsFrom _ _ w hw

end StackMachine.Listing

namespace StackMachine

open Listing
open Text (Word)

variable {capacity : Nat} {text : String} {ws rest : List Word} {stop : Word} {ds : List Datum}
  {e : Error}

theorem Program.ofListing_of_terminator (h : listed text = ws ++ stop :: rest) (hws : Records ws ds)
    (hle : ds.length ≤ capacity) (hstop : stop.text = terminator) :
    Program.ofListing capacity text = .ok (.ofList ds) := by
  have hroom : (#[] : Array Datum).size + ds.length ≤ capacity := by simpa using hle
  rw [Program.ofListing, body_eq_listed, h, hws.records_eq #[] hroom, records_of_terminator hstop,
    Array.empty_append]
  rfl

theorem Program.ofListing_of_stops (h : listed text = ws ++ rest) (hws : Records ws ds)
    (hle : ds.length ≤ capacity) (hstop : Stops capacity ds.length rest e) :
    Program.ofListing capacity text = .error e := by
  have hroom : (#[] : Array Datum).size + ds.length ≤ capacity := by simpa using hle
  rw [Program.ofListing, body_eq_listed, h, hws.records_eq #[] hroom, Array.empty_append]
  exact Stops.records_eq hstop

/-- What is read as a program is a listing of it. -/
theorem Program.listed_of_ofListing {p : Program} (h : Program.ofListing capacity text = .ok p) :
    ∃ ws stop rest, listed text = ws ++ stop :: rest ∧ Records ws p.toList ∧ p.size ≤ capacity ∧
      stop.text = terminator := by
  obtain ⟨ws, ds, rest, hlisted, hws, hle, hend⟩ :=
    records_cases (listed text) (#[] : Array Datum) (Nat.zero_le capacity)
  rw [Array.size_empty, Nat.zero_add] at hle hend
  rcases hend with ⟨stop, after, rfl, hstop⟩ | ⟨e, hstop⟩
  · rw [ofListing_of_terminator hlisted hws hle hstop] at h
    cases h
    exact ⟨ws, stop, after, hlisted, hws, hle, hstop⟩
  · rw [ofListing_of_stops hlisted hws hle hstop] at h
    cases h

/-- A text is read as a program if it is a listing of this program that fits the capacity. Otherwise the
error is that of the first thing that stops the reader, behind as many complete records as it tells. -/
theorem Program.ofListing_spec (capacity : Nat) (text : String) :
    (∀ p, Program.ofListing capacity text = .ok p ↔
      ∃ ws stop rest, listed text = ws ++ stop :: rest ∧ Records ws p.toList ∧ p.size ≤ capacity ∧
        stop.text = terminator) ∧
    ∀ e, Program.ofListing capacity text = .error e ↔
      ∃ ws ds rest, listed text = ws ++ rest ∧ Records ws ds ∧ ds.length ≤ capacity ∧
        Stops capacity ds.length rest e := by
  obtain ⟨ws, ds, rest, hlisted, hws, hle, hend⟩ :=
    records_cases (listed text) (#[] : Array Datum) (Nat.zero_le capacity)
  rw [Array.size_empty, Nat.zero_add] at hle hend
  constructor
  · intro p
    constructor
    · intro hp
      rcases hend with ⟨stop, after, rfl, hstop⟩ | ⟨e, hstop⟩
      · rw [ofListing_of_terminator hlisted hws hle hstop] at hp
        cases hp
        exact ⟨ws, stop, after, hlisted, hws, hle, hstop⟩
      · rw [ofListing_of_stops hlisted hws hle hstop] at hp
        cases hp
    · rintro ⟨ws, stop, rest, h, hws, hle, hstop⟩
      exact ofListing_of_terminator h hws hle hstop
  · intro e
    constructor
    · intro he
      rcases hend with ⟨stop, after, rfl, hstop⟩ | ⟨e', hstop⟩
      · rw [ofListing_of_terminator hlisted hws hle hstop] at he
        cases he
      · rw [ofListing_of_stops hlisted hws hle hstop] at he
        cases he
        exact ⟨ws, ds, rest, hlisted, hws, hle, hstop⟩
    · rintro ⟨ws, ds, rest, h, hws, hle, hstop⟩
      exact ofListing_of_stops h hws hle hstop

end StackMachine
