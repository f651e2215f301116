import StackMachine.Proofs.Machine.Scoping

/-!
# Values on one line

The text of a value has no blanks but spaces, however deep the lists in it go, as long as the file names of
the instructions in it are words (`Datum.oneLine_render`). A file name is the only part of the text that the
machine takes as it is.
-/

namespace StackMachine

namespace Text

/-- No blank among the characters is other than the space. -/
def OneLine (cs : List Char) : Prop := ∀ c ∈ cs, isBlank c = true → c = ' '

namespace OneLine

variable {cs ds : List Char}

instance : Decidable (OneLine cs) :=
  List.decidableBAll (fun c => isBlank c = true → c = ' ') cs

theorem of_isWord (h : isWord cs = true) : OneLine cs := by
  intro c hc hblank
  have hfree := (isWord_iff.1 h).2 c hc
  rw [hblank] at hfree
  cases hfree

theorem append (hcs : OneLine cs) (hds : OneLine ds) : OneLine (cs ++ ds) := by
  intro c hc
  rcases List.mem_append.1 hc with hc | hc
  · exact hcs c hc
  · exact hds c hc

theorem intercalate {css : List (List Char)} (hds : OneLine ds) (h : ∀ cs ∈ css, OneLine cs) :
    OneLine (ds.intercalate css) := by
  induction css with
  | nil => exact fun c hc => absurd hc List.not_mem_nil
  | cons cs css ih =>
    obtain ⟨hcs, hcss⟩ := List.forall_mem_cons.1 h
    cases css with
    | nil =>
      rw [List.intercalate_singleton]
      exact hcs
    | cons cs' css =>
      rw [List.intercalate_cons_cons]
      exact (hcs.append hds).append (ih hcss)

theorem newline_notMem (h : OneLine cs) : '\n' ∉ cs := by
  intro hmem
  have hspace : '\n' = ' ' := h '\n' hmem (by decide)
  exact absurd hspace (by decide)

end OneLine

end Text

open Text (OneLine isBlank isWord isWord_iff isBlank_of_isDigit)

/-! ### Numbers -/

namespace Numeral

theorem isWord_toDigits (n : Nat) : isWord (Nat.toDigits 10 n) = true :=
  isWord_iff.2 ⟨Nat.toDigits_ne_nil, fun c hc => isBlank_of_isDigit (isDigit_toDigits n c hc)⟩

theorem isWord_fixedChars (places units : Nat) : isWord (fixedChars places units) = true := by
  obtain ⟨-, hwhole⟩ := isWord_iff.1 (isWord_toDigits (units / 10 ^ places))
  obtain ⟨-, hpart⟩ := isWord_iff.1 (isWord_toDigits (units % 10 ^ places))
  refine isWord_iff.2 ⟨?_, ?_⟩
  · exact List.append_ne_nil_of_left_ne_nil Nat.toDigits_ne_nil _
  · refine List.forall_mem_append.2 ⟨hwhole, List.forall_mem_cons.2 ⟨by decide, ?_⟩⟩
    refine List.forall_mem_append.2 ⟨?_, hpart⟩
    intro c hc
    rw [List.eq_of_mem_replicate hc]
    decide

theorem isWord_sixPlaces (x : Float) : isWord (sixPlaces x).toList = true := by
  unfold sixPlaces
  split
  · decide
  · split <;> decide
  · next negative m q _ =>
    dsimp only
    rw [String.toList_ofList]
    have hdigits := isWord_fixedChars 6
      (Binary64.roundHalfEven ((Binary64.fraction m q).1 * 10 ^ (6 : Nat)) (Binary64.fraction m q).2)
    cases negative with
    | false => exact hdigits
    | true => exact isWord_iff.2 ⟨List.cons_ne_nil _ _,
        List.forall_mem_cons.2 ⟨by decide, (isWord_iff.1 hdigits).2⟩⟩

end Numeral

/-! ### Data -/

theorem Numeral.oneLine_repr (n : Nat) : OneLine (toString n).toList := by
  rw [Nat.toString_eq_repr, Nat.toList_repr]
  exact .of_isWord (isWord_toDigits n)

theorem Instruction.oneLine_render {i : Instruction} (h : isWord i.file.toList = true) :
    OneLine i.render.toList := by
  have hid := Numeral.oneLine_repr i.id.toNat
  have hline := Numeral.oneLine_repr i.line.toNat
  simp only [render, String.toList_append]
  refine .append (.append (.append (.append (.append (.append ?_ hid) ?_) hline) ?_) (.of_isWord h)) ?_ <;>
    decide

namespace Datum

/-- The instructions inside a datum are of files whose names are words. -/
def WordFiles (d : Datum) : Prop :=
  ∀ i : Instruction, (Datum.instruction i).Within d → isWord i.file.toList = true

mutual

theorem oneLine_render : ∀ {d : Datum}, d.WordFiles → OneLine d.render.toList
  | .null, _ => .of_isWord (by decide)
  | .integer n, _ => .of_isWord (Numeral.isWord_of_integer? (Numeral.integer?_toString n.toInt))
  | .real x, _ => .of_isWord (Numeral.isWord_sixPlaces x)
  | .instruction i, h => Instruction.oneLine_render (h i .self)
  | .function f, _ => by
    simp only [render, String.toList_append]
    refine .append (.append ?_ (Numeral.oneLine_repr f.address)) ?_ <;> decide
  | .list items, h => by
    have hitems : ∀ d ∈ items, d.WordFiles := fun d hd i hi => h i (.item hi hd)
    have hall : ∀ cs ∈ (renderAll items).map String.toList, OneLine cs :=
      List.forall_mem_map.2 (oneLine_renderAll hitems)
    rw [render, String.toList_append, String.toList_append, String.toList_intercalate]
    refine .append (.append ?_ (.intercalate ?_ hall)) ?_ <;> decide
  | .scope _, _ => .of_isWord (by rw [render]; decide)

theorem oneLine_renderAll : ∀ {ds : List Datum}, (∀ d ∈ ds, d.WordFiles) →
    ∀ text ∈ renderAll ds, OneLine text.toList
  | [], _ => fun text htext => absurd htext List.not_mem_nil
  | d :: ds, h => by
    obtain ⟨hd, hds⟩ := List.forall_mem_cons.1 h
    exact List.forall_mem_cons.2 ⟨oneLine_render hd, oneLine_renderAll hds⟩

end

end Datum

end StackMachine
