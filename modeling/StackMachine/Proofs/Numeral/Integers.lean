import StackMachine.Numeral
import StackMachine.Text.Blank

/-!
# Integers in text

The decimal text of an integer reads back as it. Whatever reads as an integer is a word.
-/

namespace StackMachine.Numeral

open Text (isBlank isWord isWord_iff isBlank_of_isDigit)

variable {cs : List Char}

theorem natural?_eq_some {n : Nat} (h : natural? cs = some n) :
    cs ≠ [] ∧ ∀ c ∈ cs, c.isDigit = true := by
  unfold natural? at h
  split at h
  · next hc => simpa using hc
  · cases h

/-! ### Signs -/

/-- What is in front of the digits is a sign or nothing. -/
theorem eq_of_splitSign (cs : List Char) :
    (splitSign cs).2 = cs ∨ ∃ c, (c = '-' ∨ c = '+') ∧ cs = c :: (splitSign cs).2 := by
  unfold splitSign
  split
  · exact .inr ⟨'-', .inl rfl, rfl⟩
  · exact .inr ⟨'+', .inr rfl, rfl⟩
  · exact .inl rfl

theorem splitSign_of_ne {c : Char} (hminus : c ≠ '-') (hplus : c ≠ '+') :
    splitSign (c :: cs) = (false, c :: cs) := by
  unfold splitSign
  split
  · next h => exact absurd (List.cons.inj h).1 hminus
  · next h => exact absurd (List.cons.inj h).1 hplus
  · rfl

theorem isDigit_toDigits (n : Nat) : ∀ c ∈ Nat.toDigits 10 n, c.isDigit = true := by
  intro c hc
  exact Nat.isDigit_of_mem_toDigits (by decide) (by decide) hc

theorem splitSign_toDigits (n : Nat) :
    splitSign (Nat.toDigits 10 n) = (false, Nat.toDigits 10 n) := by
  cases h : Nat.toDigits 10 n with
  | nil => rfl
  | cons c cs =>
    have hc : c.isDigit = true := isDigit_toDigits n c (h ▸ List.mem_cons_self)
    refine splitSign_of_ne ?_ ?_
    · rintro rfl
      exact absurd hc (by decide)
    · rintro rfl
      exact absurd hc (by decide)

theorem integer?_eq (cs : List Char) : integer? cs =
    (natural? (splitSign cs).2).map fun n : Nat => if (splitSign cs).1 then -(n : Int) else n := by
  show Option.map _ (natural? (splitSign cs).2 >>= _) = _
  cases natural? (splitSign cs).2 <;> rfl

/-! ### Numerals are words -/

theorem isWord_of_splitSign (h : isWord (splitSign cs).2 = true) : isWord cs = true := by
  rcases eq_of_splitSign cs with heq | ⟨c, hc, heq⟩
  · rwa [heq] at h
  · obtain ⟨-, hall⟩ := isWord_iff.1 h
    rw [heq, isWord_iff]
    refine ⟨List.cons_ne_nil _ _, List.forall_mem_cons.2 ⟨?_, hall⟩⟩
    rcases hc with rfl | rfl <;> decide

theorem isWord_of_natural? {n : Nat} (h : natural? cs = some n) : isWord cs = true := by
  obtain ⟨hne, hall⟩ := natural?_eq_some h
  exact isWord_iff.2 ⟨hne, fun c hc => isBlank_of_isDigit (hall c hc)⟩

theorem isWord_of_integer? {z : Int} (h : integer? cs = some z) : isWord cs = true := by
  rw [integer?_eq] at h
  obtain ⟨n, hn, -⟩ := Option.map_eq_some_iff.1 h
  exact isWord_of_splitSign (isWord_of_natural? hn)

theorem isWord_of_int64? {text : String} {n : Int64} (h : int64? text = some n) :
    isWord text.toList = true := by
  obtain ⟨z, hz, -⟩ := Option.bind_eq_some_iff.1 h
  exact isWord_of_integer? hz

theorem isWord_of_uint32? {text : String} {n : UInt32} (h : uint32? text = some n) :
    isWord text.toList = true := by
  unfold uint32? at h
  split at h
  · cases h
  · next digits hs =>
    obtain ⟨k, hk, -⟩ := Option.bind_eq_some_iff.1 h
    refine isWord_of_splitSign ?_
    rw [hs]
    exact isWord_of_natural? hk

/-! ### Printing and reading back -/

theorem integer?_toString (z : Int) : integer? (toString z).toList = some z := by
  rw [Int.toString_eq_repr, Int.repr_eq_if, integer?_eq]
  split
  · next hz =>
    rw [Nat.toList_repr, splitSign_toDigits, natural?_toDigits]
    exact congrArg some (Int.toNat_of_nonneg hz)
  · next hz =>
    rw [String.toList_append, Nat.toList_repr]
    show (natural? (Nat.toDigits 10 (-z).toNat)).map (fun n : Nat => -(n : Int)) = some z
    rw [natural?_toDigits, Option.map_some, Int.toNat_of_nonneg (by omega), Int.neg_neg]

theorem int64?_toString (n : Int64) : int64? (toString n.toInt) = some n := by
  rw [int64?, integer?_toString]
  exact Integer.ofInt?_eq_some_iff.2 rfl

theorem uint32?_toString (n : UInt32) : uint32? (toString n.toNat) = some n := by
  rw [uint32?, show toString n.toNat = n.toNat.repr from rfl, Nat.toList_repr, splitSign_toDigits]
  show (natural? (Nat.toDigits 10 n.toNat)).bind _ = some n
  rw [natural?_toDigits, Option.bind_some, if_pos n.toNat_lt, UInt32.ofNat_toNat]

end StackMachine.Numeral
