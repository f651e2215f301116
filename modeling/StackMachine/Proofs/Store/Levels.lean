import StackMachine.Proofs.Store.Assignment

/-!
# The two lookups agree

A lookup by index alone goes outward until a frame has the slot. A lookup by level and index goes to one of
the levels, the frames of the chain that are not transparent. If no transparent frame of the chain has slots,
the first finds what the second finds at the least level where it finds a slot, written or not
(`get_eq_getAt_least`).
-/

namespace StackMachine.Store

variable {s : Store} {id q : FrameId} {i level : Nat}

/-- The frames of the chain that are counted, innermost first. -/
def levels (s : Store) (id : FrameId) : List FrameId := (s.chain id).filter s.isSolid

/-- No transparent frame of the chain has slots. -/
def HollowAlong (s : Store) (id : FrameId) : Prop :=
  ∀ q ∈ s.chain id, ∀ f, s.frame? q = some f → f.transparent = true → f.slots = #[]

/-! ### What is found at a level -/

theorem slot_eq_unresolved_iff : s.slot q i = .error (.unresolved i) ↔ s.hasSlot i q = false := by
  unfold slot hasSlot
  cases hf : s.frame? q with
  | none => simp
  | some f =>
    have hbounds : f.slots[i]? = none ↔ f.covers i = false := by
      simp [Frame.covers]
    rw [Option.bind_some, Option.any_some, ← hbounds]
    cases hslot : f.slots[i]? with
    | none => simp
    | some content => cases content <;> simp

theorem getAt_of_level (h : (s.levels id)[level]? = some q) : s.getAt id level i = s.slot q i := by
  have hlevel : s.level? level id = some q := (level?_eq_getElem?_chain s level id).trans h
  rw [getAt, hlevel]

theorem getAt_of_levels_le (h : (s.levels id).length ≤ level) :
    s.getAt id level i = .error (.unresolved i) := by
  have hlevel : s.level? level id = none :=
    (level?_eq_getElem?_chain s level id).trans (List.getElem?_eq_none h)
  rw [getAt, hlevel]

/-! ### Where a lookup by index alone ends -/

theorem HollowAlong.isSolid_of_hasSlot (h : s.HollowAlong id) (hq : q ∈ s.chain id)
    (hslot : s.hasSlot i q = true) : s.isSolid q = true := by
  unfold hasSlot at hslot
  unfold isSolid
  cases hf : s.frame? q with
  | none =>
    rw [hf] at hslot
    cases hslot
  | some f =>
    rw [hf, Option.any_some, Frame.covers, decide_eq_true_eq] at hslot
    have htransparent : f.transparent ≠ true := by
      intro ht
      rw [h q hq f hf ht] at hslot
      exact Nat.not_lt_zero i hslot
    simpa using htransparent

theorem HollowAlong.get_eq_getIn_levels (h : s.HollowAlong id) (i : Nat) :
    s.get id i = s.getIn (s.levels id) i := by
  have hfind : (s.levels id).find? (s.hasSlot i) = (s.chain id).find? (s.hasSlot i) := by
    rw [← List.head?_filter, ← List.head?_filter, levels, List.filter_filter]
    refine congrArg List.head? (List.filter_congr fun q hq => ?_)
    cases hslot : s.hasSlot i q with
    | false => exact Bool.false_and _
    | true => rw [h.isSolid_of_hasSlot hq hslot, Bool.and_true]
  rw [get_eq_getIn, getIn, getIn, hfind]

/-- If the chain has the slot at no level, it is found nowhere. Otherwise it is found as at the least level
that has it. There are as many levels as frames of the chain that are not transparent. -/
theorem get_eq_getAt_least (h : s.HollowAlong id) (i : Nat) :
    ((∀ level, s.getAt id level i = .error (.unresolved i)) → s.get id i = .error (.unresolved i)) ∧
    ((∃ level, s.getAt id level i ≠ .error (.unresolved i)) →
      ∃ level, s.getAt id level i ≠ .error (.unresolved i) ∧
        (∀ inner < level, s.getAt id inner i = .error (.unresolved i)) ∧
        s.get id i = s.getAt id level i) ∧
    ∀ level, ((s.chain id).filter s.isSolid).length ≤ level →
      s.getAt id level i = .error (.unresolved i) := by
  have hget := h.get_eq_getIn_levels i
  unfold getIn at hget
  cases hfind : (s.levels id).find? (s.hasSlot i) with
  | none =>
    rw [hfind] at hget
    have hnone : ∀ level, s.getAt id level i = .error (.unresolved i) := by
      intro level
      cases hq : (s.levels id)[level]? with
      | none => exact getAt_of_levels_le (List.getElem?_eq_none_iff.1 hq)
      | some q =>
        rw [getAt_of_level hq, slot_eq_unresolved_iff]
        exact eq_false_of_ne_true (List.find?_eq_none.1 hfind q (List.mem_of_getElem? hq))
    refine ⟨fun _ => hget, ?_, fun _ => getAt_of_levels_le⟩
    rintro ⟨level, hlevel⟩
    exact absurd (hnone level) hlevel
  | some q =>
    rw [hfind] at hget
    obtain ⟨hslot, least, hlt, hq, hinner⟩ := List.find?_eq_some_iff_getElem.1 hfind
    have hleast : s.getAt id least i = s.slot q i :=
      getAt_of_level (List.getElem?_eq_some_iff.2 ⟨hlt, hq⟩)
    have hfound : s.getAt id least i ≠ .error (.unresolved i) := by
      rw [hleast, Ne, slot_eq_unresolved_iff, hslot]
      exact Bool.true_eq_false.mp
    refine ⟨fun hnone => absurd (hnone least) hfound, ?_, fun _ => getAt_of_levels_le⟩
    intro _
    refine ⟨least, hfound, ?_, hget.trans hleast.symm⟩
    intro inner hlt'
    rw [getAt_of_level (List.getElem?_eq_getElem (Nat.lt_trans hlt' hlt)), slot_eq_unresolved_iff]
    simpa using hinner inner hlt'

/-- Around the frame `3` there are a transparent one, a frame with one slot and the outermost one with three,
of which only the last is written. -/
def thunkBetween : Store :=
  ((((empty.addRoot.define 0 2 (.integer 7)).addChild 0 false).define 1 0 (.integer 5)).addChild 1 true).addChild
    2 false

/-- Slot `1` is found at the last of three levels, and is not written there. -/
theorem get_eq_getAt_least_thunkBetween :
    thunkBetween.HollowAlong 3 ∧ thunkBetween.chain 3 = [3, 2, 1, 0] ∧
      (∃ level, thunkBetween.getAt 3 level 1 ≠ .error (.unresolved 1)) ∧
      thunkBetween.get 3 1 = thunkBetween.getAt 3 2 1 ∧
      thunkBetween.getAt 3 2 1 = .error (.uninitialized 1) ∧
      thunkBetween.getAt 3 3 1 = .error (.unresolved 1) := by
  have h : thunkBetween.HollowAlong 3 := by
    have hall : ∀ q ∈ thunkBetween.chain 3, ∀ f ∈ thunkBetween.frame? q,
        f.transparent = true → f.slots = #[] := by
      decide +kernel
    exact hall
  have hwritten : thunkBetween.getAt 3 2 1 = .error (.uninitialized 1) := by decide +kernel
  have hsome : ∃ level, thunkBetween.getAt 3 level 1 ≠ .error (.unresolved 1) := by
    refine ⟨2, ?_⟩
    rw [hwritten]
    simp
  obtain ⟨-, hleast, hbeyond⟩ := get_eq_getAt_least h 1
  obtain ⟨level, hfound, hinner, hget⟩ := hleast hsome
  have hlevel : level = 2 := by
    rcases Nat.lt_trichotomy level 2 with hlt | heq | hgt
    · have hunresolved : ∀ inner < 2, thunkBetween.getAt 3 inner 1 = .error (.unresolved 1) := by decide +kernel
      exact absurd (hunresolved level hlt) hfound
    · exact heq
    · have hunresolved := hinner 2 hgt
      rw [hwritten] at hunresolved
      cases hunresolved
  subst hlevel
  exact ⟨h, by decide +kernel, hsome, hget, hwritten, hbeyond 3 (by decide +kernel)⟩

end StackMachine.Store
