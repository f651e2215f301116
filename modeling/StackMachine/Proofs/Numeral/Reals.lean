import StackMachine.Numeral.Shortest
import StackMachine.Proofs.Binary64.Exact
import StackMachine.Proofs.Numeral.Integers

/-!
# Reals in text

The shortest text of a real reads back as it (`real?_shortest`). The digits are chosen among those that
do, and if none of the candidates did, the exact expansion would.
-/

namespace StackMachine.Numeral

open Text (isBlank isWord isWord_iff isBlank_of_isDigit)
open Binary64 (Canonical nearestDecimal nearest_eq_encode ofMagnitude shape)

variable {cs : List Char} {k m : Nat} {q : Int}

/-! ### What a magnitude is made of -/

theorem isDigit_of_mem_spanDigits (cs : List Char) {c : Char} (hc : c ∈ (spanDigits cs).1) :
    c.isDigit = true :=
  List.mem_takeWhile_imp hc

theorem spanDigits_append {ds : List Char} {c : Char} (hds : ∀ d ∈ ds, d.isDigit = true)
    (hc : c.isDigit = false) : spanDigits (ds ++ c :: cs) = (ds, c :: cs) := by
  unfold spanDigits
  rw [List.takeWhile_append_of_pos hds, List.dropWhile_append_of_pos hds, List.takeWhile_cons_of_neg
    (by simp [hc]), List.dropWhile_cons_of_neg (by simp [hc]), List.append_nil]

/-- The digits of a numeral, with the point between them or without one, and the rest. -/
theorem eq_of_spanFraction (cs : List Char) {whole part rest : List Char}
    (h : spanFraction cs = (whole, part, rest)) :
    (∀ c ∈ whole ++ part, c.isDigit = true) ∧
      (cs = whole ++ '.' :: (part ++ rest) ∨ part = [] ∧ cs = whole ++ rest) := by
  have happend : (spanDigits cs).1 ++ (spanDigits cs).2 = cs := List.takeWhile_append_dropWhile
  unfold spanFraction at h
  split at h
  · next w r hs =>
    obtain ⟨rfl, hp⟩ := Prod.mk.inj h
    rw [hs] at happend
    have hpart : (spanDigits r).1 = part := congrArg Prod.fst hp
    have hrest : (spanDigits r).2 = rest := congrArg Prod.snd hp
    refine ⟨?_, .inl ?_⟩
    · intro c hc
      rcases List.mem_append.1 hc with hc | hc
      · exact isDigit_of_mem_spanDigits cs (by rwa [hs])
      · exact isDigit_of_mem_spanDigits r (by rwa [hpart])
    · rw [← happend, ← hpart, ← hrest]
      exact congrArg (w ++ '.' :: ·) List.takeWhile_append_dropWhile.symm
  · next w r _ hs =>
    obtain ⟨rfl, hp⟩ := Prod.mk.inj h
    obtain ⟨rfl, rfl⟩ := Prod.mk.inj hp
    rw [hs] at happend
    refine ⟨?_, .inr ⟨rfl, happend.symm⟩⟩
    intro c hc
    rw [List.append_nil] at hc
    exact isDigit_of_mem_spanDigits cs (by rwa [hs])

theorem exponent?_eq_some {e : Int} (h : exponent? cs = some e) : ∀ c ∈ cs, isBlank c = false := by
  unfold exponent? at h
  split at h
  · exact fun c hc => absurd hc List.not_mem_nil
  · next c cs =>
    split at h
    · next hc =>
      have hcs := (isWord_iff.1 (isWord_of_integer? h)).2
      refine List.forall_mem_cons.2 ⟨?_, hcs⟩
      rcases hc with rfl | rfl <;> decide
    · cases h

/-- A magnitude starts with a digit or the point, and has no blank. -/
theorem magnitude?_eq_some (h : magnitude? cs = some k) :
    isWord cs = true ∧ ∃ c rest, cs = c :: rest ∧ (c.isDigit = true ∨ c = '.') := by
  unfold magnitude? at h
  rcases hs : spanFraction cs with ⟨whole, part, rest⟩
  rw [hs] at h
  obtain ⟨hdigits, hcs⟩ := eq_of_spanFraction cs hs
  dsimp only at h
  split at h
  · cases h
  next hsome =>
  obtain ⟨e, he, -⟩ := Option.map_eq_some_iff.1 h
  have hclear : ∀ c ∈ cs, isBlank c = false := by
    intro c hc
    have hmem : c ∈ whole ++ part ∨ c = '.' ∨ c ∈ rest := by
      rcases hcs with rfl | ⟨-, rfl⟩ <;> simp only [List.mem_append, List.mem_cons] at hc ⊢ <;> tauto
    rcases hmem with hc | rfl | hc
    · exact isBlank_of_isDigit (hdigits c hc)
    · decide
    · exact exponent?_eq_some he c hc
  have hhead : ∃ c rest, cs = c :: rest ∧ (c.isDigit = true ∨ c = '.') := by
    cases whole with
    | nil =>
      rcases hcs with rfl | ⟨rfl, -⟩
      · exact ⟨'.', _, rfl, .inr rfl⟩
      · exact absurd rfl hsome
    | cons c whole =>
      have hc : c.isDigit = true := hdigits c List.mem_cons_self
      rcases hcs with rfl | ⟨-, rfl⟩ <;> exact ⟨c, _, rfl, .inl hc⟩
  refine ⟨isWord_iff.2 ⟨?_, hclear⟩, hhead⟩
  obtain ⟨c, rest, rfl, -⟩ := hhead
  exact List.cons_ne_nil c rest

theorem toLower_of_lt {c : Char} (h : c.toNat < 65) : c.toLower = c := by
  unfold Char.toLower
  split
  · next hc =>
    have hge : 65 ≤ c.toNat := hc.1
    omega
  · rfl

/-- Digits behind a sign are read as such, and not as one of the words for other reals. -/
theorem realOfChars?_of_magnitude? (negative : Bool) (h : magnitude? cs = some k) :
    realOfChars? (if negative then '-' :: cs else cs) = some (ofMagnitude negative k) := by
  obtain ⟨-, c, rest, rfl, hc⟩ := magnitude?_eq_some h
  have hplain : splitSign (if negative then '-' :: c :: rest else c :: rest) =
      (negative, c :: rest) := by
    cases negative with
    | true => rfl
    | false =>
      refine splitSign_of_ne ?_ ?_
      · rintro rfl
        revert hc
        decide
      · rintro rfl
        revert hc
        decide
  have hlt : c.toNat < 65 := by
    rcases hc with hc | rfl
    · have hle : c.toNat ≤ 57 := (Char.isDigit_iff_toNat.1 hc).2
      omega
    · decide
  have hne {d : Char} {ds : List Char} (hd : 65 ≤ d.toNat) :
      (c :: rest).map Char.toLower ≠ d :: ds := by
    intro heq
    rw [List.map_cons, toLower_of_lt hlt] at heq
    rw [← (List.cons.inj heq).1] at hd
    omega
  unfold realOfChars?
  rw [hplain]
  dsimp only
  rw [if_neg, if_neg, h, Option.map_some]
  · exact hne (by decide)
  · rintro (heq | heq)
    · exact hne (by decide) heq
    · exact hne (by decide) heq

/-! ### Exact expansions -/

theorem magnitude?_plain (d : Decimal) :
    magnitude? d.plain = some (nearestDecimal d.digits d.exponent) := by
  have hdigits := isDigit_toDigits d.digits
  have hspan : spanFraction d.plain =
      (Nat.toDigits 10 d.digits, [], 'e' :: (toString d.exponent).toList) := by
    unfold spanFraction Decimal.plain
    rw [spanDigits_append hdigits (by decide)]
    rfl
  unfold magnitude?
  rw [hspan]
  dsimp only
  rw [if_neg (by simp [Nat.toDigits_ne_nil]), exponent?, if_pos (.inl rfl), integer?_toString,
    Option.map_some, List.append_nil, Nat.ofDigitChars_toDigits (by decide) (by decide),
    List.length_nil, Nat.cast_zero, sub_zero]

theorem nearestDecimal_exactDecimal (h : Canonical m q) (hm : m ≠ 0) :
    nearestDecimal (exactDecimal m q).digits (exactDecimal m q).exponent =
      min Binary64.infinity (Binary64.encode m q) := by
  unfold exactDecimal
  split
  · next hq =>
    -- an integer
    obtain ⟨n, rfl⟩ : ∃ n : Nat, q = n := ⟨q.toNat, by omega⟩
    have hv : ((m * 2 ^ n * 10 ^ 0 : Nat) : ℚ) / (10 ^ 0 : Nat) = m * 2 ^ (n : Int) := by
      rw [zpow_natCast]
      push_cast
      simp
    unfold nearestDecimal
    dsimp only
    rw [if_neg (by simp [hm]), if_neg (by decide), if_neg (by omega), Int.toNat_natCast]
    exact nearest_eq_encode h hm (Nat.one_pos) hv
  · next hq =>
    -- a power of ten on both sides, as `5 ^ n / 10 ^ n = 2 ^ -n`
    obtain ⟨n, rfl⟩ : ∃ n : Nat, q = -n := ⟨(-q).toNat, by omega⟩
    have hv : ((m * 5 ^ n * 10 ^ 0 : Nat) : ℚ) / (10 ^ n : Nat) = m * 2 ^ (-(n : Int)) := by
      push_cast
      rw [zpow_neg, zpow_natCast, show (10 : ℚ) = 2 * 5 by norm_num, mul_pow]
      field_simp
    have hlog : n ≤ (m * 5 ^ n).log2 := by
      refine (Nat.le_log2 (by positivity)).2 ?_
      calc 2 ^ n ≤ 5 ^ n := Nat.pow_le_pow_left (by decide) n
        _ ≤ m * 5 ^ n := Nat.le_mul_of_pos_left _ (Nat.pos_of_ne_zero hm)
    unfold nearestDecimal
    simp only [Int.neg_neg, Int.toNat_natCast]
    rw [if_neg (by simp [hm]), if_neg (by omega), if_neg (by omega)]
    rw [show (-(n : Int)).toNat = 0 by omega]
    exact nearest_eq_encode h hm (by positivity) hv

/-! ### Shortest texts -/

theorem magnitude?_shortestChars (h : Canonical m q) (hm : m ≠ 0)
    (hlt : Binary64.encode m q < Binary64.infinity) :
    magnitude? (shortestChars (Binary64.encode m q) m q) = some (Binary64.encode m q) := by
  unfold shortestChars
  dsimp only
  cases hfind : (candidates (Binary64.fraction m q).1 (Binary64.fraction m q).2).find?
      fun cs => magnitude? cs == some (Binary64.encode m q) with
  | some cs =>
    have hcs := List.find?_some hfind
    exact eq_of_beq hcs
  | none =>
    show magnitude? (exactDecimal m q).plain = _
    rw [magnitude?_plain, nearestDecimal_exactDecimal h hm, Nat.min_eq_right (Nat.le_of_lt hlt)]

/-- A finite real is written as its magnitude, behind a minus if it has one. -/
theorem shortest_of_finite {x : Float} (h : Binary64.magnitude x < Binary64.infinity) :
    ∃ cs, shortest x = String.ofList (if Binary64.negative x then '-' :: cs else cs) ∧
      magnitude? cs = some (Binary64.magnitude x) := by
  have hencode := Binary64.encode_decode (Binary64.magnitude x)
  have hcanonical := Binary64.canonical_decode (Binary64.magnitude x)
  have hshape : shape x = .finite (Binary64.negative x) (Binary64.decode (Binary64.magnitude x)).1
      (Binary64.decode (Binary64.magnitude x)).2 := by
    unfold shape
    rw [if_pos h]
  unfold shortest
  rw [hshape]
  refine ⟨_, rfl, ?_⟩
  split
  · next hm =>
    rw [hm] at hencode hcanonical
    have hq := hcanonical.normal_or_least.resolve_left (by decide)
    rw [hq] at hencode
    rw [← hencode]
    decide +kernel
  · next hm =>
    rw [← hencode] at h
    have hread := magnitude?_shortestChars hcanonical hm h
    rwa [hencode] at hread

theorem shortest_cases (x : Float) :
    shortest x = "NaN" ∧ x = 0 / 0 ∨
      (∃ negative : Bool, shortest x = (if negative then "-inf" else "inf") ∧
        x = ofMagnitude negative Binary64.infinity) ∨
      ∃ negative cs k, shortest x = String.ofList (if negative then '-' :: cs else cs) ∧
        magnitude? cs = some k ∧ x = ofMagnitude negative k := by
  have hx := Binary64.ofMagnitude_magnitude x
  rcases Nat.lt_trichotomy (Binary64.magnitude x) Binary64.infinity with hlt | heq | hgt
  · obtain ⟨cs, hcs, hread⟩ := shortest_of_finite hlt
    exact .inr (.inr ⟨_, cs, _, hcs, hread, hx.symm⟩)
  · have hshape : shape x = .infinite (Binary64.negative x) := by
      unfold shape
      rw [heq, if_neg (Nat.lt_irrefl _), if_pos rfl]
    rw [heq] at hx
    refine .inr (.inl ⟨Binary64.negative x, ?_, hx.symm⟩)
    unfold shortest
    rw [hshape]
  · have hshape : shape x = .notANumber := by
      unfold shape
      rw [if_neg (Nat.lt_asymm hgt), if_neg (Nat.ne_of_gt hgt)]
    refine .inl ⟨?_, Binary64.eq_nan_of_infinity_lt hgt⟩
    unfold shortest
    rw [hshape]

theorem real?_shortest (x : Float) : real? (shortest x) = some x := by
  rcases shortest_cases x with ⟨hs, hx⟩ | ⟨negative, hs, hx⟩ | ⟨negative, cs, k, hs, hread, hx⟩
  · rw [hs, hx]
    rfl
  · rw [hs, hx]
    cases negative <;> rfl
  · rw [hs, real?, String.toList_ofList, realOfChars?_of_magnitude? negative hread, hx]

theorem isWord_shortest (x : Float) : isWord (shortest x).toList = true := by
  rcases shortest_cases x with ⟨hs, -⟩ | ⟨negative, hs, -⟩ | ⟨negative, cs, k, hs, hread, -⟩
  · rw [hs]
    decide
  · rw [hs]
    cases negative <;> decide
  · rw [hs, String.toList_ofList]
    have hcs := (magnitude?_eq_some hread).1
    cases negative with
    | false => exact hcs
    | true => exact isWord_of_splitSign hcs

end StackMachine.Numeral
