import Mathlib.Data.List.Nodup
import StackMachine.Proofs.Store.Transparent

/-!
# What an assignment does to lookups

An assignment writes one frame, its owner: the innermost one of the chain that has the slot, or else the
innermost one that is not transparent. A lookup notices this if it gets as far as the owner (`GetsTo`), and
then in two ways: at the index written, and at the indices of the slots that the row was filled up with,
which are found unwritten from then on, whatever frames further out have there. All other lookups find what
they did (`assignment_effect`).
-/

namespace StackMachine.Store

variable {s : Store} {id q r t : FrameId} {f : Frame} {i j level : Nat} {v : Datum}

/-- Whether a frame is there and has a slot with this index, written or not. -/
def hasSlot (s : Store) (i : Nat) (id : FrameId) : Bool := (s.frame? id).any (·.covers i)

def Innermost (s : Store) (p : FrameId → Bool) (id q : FrameId) : Prop :=
  ∃ inner outer, s.chain id = inner ++ q :: outer ∧ p q = true ∧ ∀ r ∈ inner, p r = false

/-- The innermost frame of the chain that has the slot, or if none has, the innermost one that is not
transparent. -/
def IsOwner (s : Store) (id : FrameId) (i : Nat) (q : FrameId) : Prop :=
  s.Innermost (s.hasSlot i) id q ∨
    (∀ r ∈ s.chain id, s.hasSlot i r = false) ∧ s.Innermost s.isSolid id q

/-- The frame is in the chain, and no frame of the chain that is further in has the slot. -/
def GetsTo (s : Store) (id : FrameId) (i : Nat) (q : FrameId) : Prop :=
  ∃ inner outer, s.chain id = inner ++ q :: outer ∧ ∀ r ∈ inner, s.hasSlot i r = false

/-- What a lookup of slot `j` finds before and after the slot `i` of a frame with `size` slots has been
written, where `reached` tells whether the lookup gets as far as this frame. -/
structure LookupEffect (reached : Prop) (size i : Nat) (v : Datum) (j : Nat)
    (before after : Except LookupError Datum) : Prop where
  written : reached → j = i → after = .ok v
  padded : reached → size ≤ j → j < i → after = .error (.uninitialized j)
  kept : ¬(reached ∧ (j = i ∨ size ≤ j ∧ j < i)) → after = before

/-! ### Chains -/

theorem le_of_mem_chain : q ∈ s.chain id → q ≤ id := by
  fun_induction chain s id with
  | case1 id hf => simp
  | case2 id f hf ih =>
    intro h
    rcases List.mem_cons.1 h with rfl | h
    · exact Nat.le_refl _
    · split at h
      · cases h
      · next parent _ => exact Nat.le_trans (ih parent h) (Nat.le_of_lt parent.isLt)

theorem nodup_chain (s : Store) (id : FrameId) : (s.chain id).Nodup := by
  fun_induction chain s id with
  | case1 id hf => exact List.nodup_nil
  | case2 id f hf ih =>
    refine List.nodup_cons.2 ⟨?_, ?_⟩
    · intro h
      split at h
      · cases h
      · next parent _ => exact absurd (le_of_mem_chain h) (Nat.not_le.2 parent.isLt)
    · split
      · exact List.nodup_nil
      · next parent _ => exact ih parent

theorem ne_of_chain_eq {inner outer : List FrameId} (h : s.chain id = inner ++ q :: outer) :
    ∀ r ∈ inner ++ outer, r ≠ q := by
  have hnodup := s.nodup_chain id
  rw [h, List.nodup_middle, List.nodup_cons] at hnodup
  rintro r hr rfl
  exact hnodup.1 hr

/-! ### The owner -/

theorem innermost_of_find? {p : Frame → Bool} (h : s.find? p id = some q) :
    s.Innermost (fun r => (s.frame? r).any p) id q := by
  rw [find?_eq_find?_chain, List.find?_eq_some_iff_append] at h
  obtain ⟨hq, inner, outer, hchain, hinner⟩ := h
  exact ⟨inner, outer, hchain, hq, fun r hr => by simpa using hinner r hr⟩

theorem isOwner_owner (hs : s.Nested) (hid : id < s.size) (i : Nat) : s.IsOwner id i (s.owner id i) := by
  unfold owner
  cases hcover : s.find? (·.covers i) id with
  | some q => exact .inl (innermost_of_find? hcover)
  | none =>
    rw [find?_eq_find?_chain, List.find?_eq_none] at hcover
    obtain ⟨f, hf⟩ := exists_frame? hid
    obtain ⟨q, hq⟩ := hs.exists_find?_solid id f hf
    rw [hq]
    exact .inr ⟨fun r hr => eq_false_of_ne_true (hcover r hr), innermost_of_find? hq⟩

/-- A lookup of the slot that is assigned to gets as far as the owner. -/
theorem IsOwner.getsTo (h : s.IsOwner id i q) : s.GetsTo id i q := by
  rcases h with ⟨inner, outer, hchain, -, hinner⟩ | ⟨hnone, inner, outer, hchain, -, -⟩
  · exact ⟨inner, outer, hchain, hinner⟩
  · refine ⟨inner, outer, hchain, fun r hr => hnone r ?_⟩
    rw [hchain]
    exact List.mem_append_left _ hr

/-! ### Slots after a write -/

theorem hasSlot_define_of_ne (hr : r ≠ q) : (s.define q i v).hasSlot j r = s.hasSlot j r := by
  rw [hasSlot, hasSlot, define, frame?_modify_of_ne hr]

theorem hasSlot_iff (hf : s.frame? q = some f) : s.hasSlot j q = true ↔ j < f.slots.size := by
  rw [hasSlot, hf, Option.any_some, Frame.covers, decide_eq_true_eq]

theorem hasSlot_define_iff (hf : s.frame? q = some f) :
    (s.define q i v).hasSlot j q = true ↔ j < f.slots.size ∨ j ≤ i := by
  have hwritten : (s.define q i v).frame? q = some (f.define i v) := frame?_modify_self hf _
  rw [hasSlot_iff hwritten, Frame.size_slots_define]
  omega

theorem slot_define_of_ne (hr : r ≠ q) : (s.define q i v).slot r j = s.slot r j := by
  rw [slot, slot, define, frame?_modify_of_ne hr]

theorem getElem?_define_of_kept (h : ¬(j = i ∨ f.slots.size ≤ j ∧ j < i)) :
    (f.define i v).slots[j]? = f.slots[j]? := by
  rw [Frame.getElem?_slots_define, if_neg fun hj => h (.inl hj)]
  split
  · rfl
  · next hsize =>
    have hlt : ¬j < i := fun hlt => h (.inr ⟨Nat.not_lt.1 hsize, hlt⟩)
    rw [if_neg hlt, Array.getElem?_eq_none (Nat.not_lt.1 hsize)]

theorem lookupEffect_slot (hf : s.frame? q = some f) :
    LookupEffect True f.slots.size i v j (s.slot q j) ((s.define q i v).slot q j) := by
  rw [slot, slot, define, frame?_modify_self hf, hf, Option.bind_some, Option.bind_some]
  constructor
  · intro _ hj
    rw [Frame.getElem?_slots_define, if_pos hj]
  · intro _ hsize hlt
    rw [Frame.getElem?_slots_define, if_neg (Nat.ne_of_lt hlt), if_neg (Nat.not_lt.2 hsize), if_pos hlt]
  · intro hkept
    rw [getElem?_define_of_kept fun h => hkept ⟨trivial, h⟩]

/-! ### Lookups after a write -/

/-- What the first of some frames that has the slot has there. -/
def getIn (s : Store) (ids : List FrameId) (i : Nat) : Except LookupError Datum :=
  match ids.find? (s.hasSlot i) with
  | none => .error (.unresolved i)
  | some q => s.slot q i

theorem get_eq_getIn (s : Store) (id : FrameId) (i : Nat) : s.get id i = s.getIn (s.chain id) i := by
  rw [get, find?_eq_find?_chain]
  rfl

variable {ids inner outer : List FrameId}

theorem getIn_cons (s : Store) (q : FrameId) (ids : List FrameId) (i : Nat) :
    s.getIn (q :: ids) i = if s.hasSlot i q then s.slot q i else s.getIn ids i := by
  rw [getIn, List.find?_cons]
  cases s.hasSlot i q <;> rfl

theorem getIn_append_of_none (h : ∀ r ∈ inner, s.hasSlot i r = false) :
    s.getIn (inner ++ ids) i = s.getIn ids i := by
  have hnone : inner.find? (s.hasSlot i) = none := by
    rw [List.find?_eq_none]
    exact fun r hr => Bool.not_eq_true _ ▸ h r hr
  rw [getIn, List.find?_append, hnone]
  rfl

theorem getIn_append_of_some (h : ∃ r ∈ inner, s.hasSlot i r = true) :
    s.getIn (inner ++ ids) i = s.getIn inner i := by
  obtain ⟨owner, howner⟩ := Option.isSome_iff_exists.1 (List.find?_isSome.2 h)
  rw [getIn, getIn, List.find?_append, howner]
  rfl

theorem getIn_define (h : ∀ r ∈ ids, r ≠ q) : (s.define q i v).getIn ids j = s.getIn ids j := by
  induction ids with
  | nil => rfl
  | cons r ids ih =>
    have hr := h r List.mem_cons_self
    rw [getIn_cons, getIn_cons, hasSlot_define_of_ne hr, slot_define_of_ne hr,
      ih fun r hr => h r (List.mem_cons_of_mem _ hr)]

/-- A lookup that gets as far as the frame finds its slot, or goes on further out as before. -/
theorem lookupEffect_of_getsTo (hf : s.frame? q = some f) (h : s.GetsTo id j q) :
    LookupEffect True f.slots.size i v j (s.get id j) ((s.define q i v).get id j) := by
  obtain ⟨inner, outer, hchain, hinner⟩ := h
  have hne := ne_of_chain_eq hchain
  have hinner' : ∀ r ∈ inner, (s.define q i v).hasSlot j r = false := by
    intro r hr
    rw [hasSlot_define_of_ne (hne r (List.mem_append_left _ hr)), hinner r hr]
  have houter : (s.define q i v).getIn outer j = s.getIn outer j :=
    getIn_define fun r hr => hne r (List.mem_append_right _ hr)
  have hslot : LookupEffect True f.slots.size i v j (s.slot q j) ((s.define q i v).slot q j) :=
    lookupEffect_slot hf
  rw [get_eq_getIn, get_eq_getIn, chain_define, hchain, getIn_append_of_none hinner,
    getIn_append_of_none hinner', getIn_cons, getIn_cons, houter]
  by_cases hq : (s.define q i v).hasSlot j q = true
  · rw [if_pos hq]
    refine ⟨hslot.written, hslot.padded, ?_⟩
    intro hkept
    have hold : s.hasSlot j q = true := by
      rw [hasSlot_define_iff hf] at hq
      rw [hasSlot_iff hf]
      by_contra hsize
      exact hkept ⟨trivial, by omega⟩
    rw [if_pos hold]
    exact hslot.kept hkept
  · rw [if_neg hq]
    rw [hasSlot_define_iff hf] at hq
    have hold : ¬s.hasSlot j q = true := by
      rw [hasSlot_iff hf]
      omega
    rw [if_neg hold]
    exact ⟨fun _ hj => absurd hj (by omega), fun _ _ hlt => absurd hlt (by omega), fun _ => rfl⟩

/-- A lookup that ends further in, or passes the frame by. -/
theorem get_define_of_not_getsTo (h : ¬s.GetsTo id j q) : (s.define q i v).get id j = s.get id j := by
  rw [get_eq_getIn, get_eq_getIn, chain_define]
  by_cases hq : q ∈ s.chain id
  · obtain ⟨inner, outer, hchain⟩ := List.append_of_mem hq
    have hne : ∀ r ∈ inner, r ≠ q := fun r hr => ne_of_chain_eq hchain r (List.mem_append_left _ hr)
    have hsome : ∃ r ∈ inner, s.hasSlot j r = true := by
      by_contra hnone
      refine h ⟨inner, outer, hchain, fun r hr => ?_⟩
      exact eq_false_of_ne_true fun hslot => hnone ⟨r, hr, hslot⟩
    have hsome' : ∃ r ∈ inner, (s.define q i v).hasSlot j r = true := by
      obtain ⟨r, hr, hslot⟩ := hsome
      exact ⟨r, hr, by rw [hasSlot_define_of_ne (hne r hr), hslot]⟩
    rw [hchain, getIn_append_of_some hsome, getIn_append_of_some hsome', getIn_define hne]
  · exact getIn_define fun r hr hrq => hq (hrq ▸ hr)

/-- Of what is true of the slots of a frame, lookups notice what they reach. -/
theorem LookupEffect.of_reached {reached : Prop} {size : Nat} {before after : Except LookupError Datum}
    (h : reached → LookupEffect True size i v j before after) (hnot : ¬reached → after = before) :
    LookupEffect reached size i v j before after where
  written hr := (h hr).written trivial
  padded hr := (h hr).padded trivial
  kept hkept := by
    by_cases hr : reached
    · exact (h hr).kept fun hboth => hkept ⟨hr, hboth.2⟩
    · exact hnot hr

theorem lookupEffect_get (hf : s.frame? q = some f) (id : FrameId) (j : Nat) :
    LookupEffect (s.GetsTo id j q) f.slots.size i v j (s.get id j) ((s.define q i v).get id j) :=
  .of_reached (lookupEffect_of_getsTo hf) get_define_of_not_getsTo

theorem level?_define (s : Store) (q : FrameId) (i : Nat) (v : Datum) (level : Nat) (id : FrameId) :
    (s.define q i v).level? level id = s.level? level id := by
  have hsolid : (s.define q i v).isSolid = s.isSolid := funext (isSolid_define s q i v)
  rw [level?_eq_getElem?_chain, level?_eq_getElem?_chain, chain_define]
  exact congrArg (fun p => ((s.chain id).filter p)[level]?) hsolid

theorem lookupEffect_getAt (hf : s.frame? q = some f) (id : FrameId) (level j : Nat) :
    LookupEffect (((s.chain id).filter s.isSolid)[level]? = some q) f.slots.size i v j
      (s.getAt id level j) ((s.define q i v).getAt id level j) := by
  have hlevel : s.level? level id = ((s.chain id).filter s.isSolid)[level]? :=
    level?_eq_getElem?_chain s level id
  rw [← hlevel, getAt, getAt, level?_define]
  refine .of_reached ?_ ?_
  · intro hq
    rw [hq]
    exact lookupEffect_slot hf
  · intro hq
    cases hr : s.level? level id with
    | none => rfl
    | some r => exact slot_define_of_ne fun hrq => hq (hrq ▸ hr)

/-- An assignment writes its owner and no other frame. Of all other lookups those notice it which get as far
as the owner: where they look for the slot assigned to or for one that the row was filled up with. -/
theorem assignment_effect (hs : s.Built) (hid : id < s.size) (i : Nat) (v : Datum) :
    ∃ q f, s.IsOwner id i q ∧ s.frame? q = some f ∧
      (s.set id i v).frame? q = some (f.define i v) ∧
      (∀ r ≠ q, (s.set id i v).frame? r = s.frame? r) ∧
      (s.set id i v).get id i = .ok v ∧
      (∀ t j, LookupEffect (s.GetsTo t j q) f.slots.size i v j (s.get t j) ((s.set id i v).get t j)) ∧
      ∀ t level j, LookupEffect (((s.chain t).filter s.isSolid)[level]? = some q) f.slots.size i v j
        (s.getAt t level j) ((s.set id i v).getAt t level j) := by
  have howner := isOwner_owner hs.nested hid i
  obtain ⟨f, hf⟩ := exists_frame? (lt_size_of_mem_chain (owner_mem_chain hid i))
  have hget := lookupEffect_get (i := i) (v := v) hf
  exact ⟨s.owner id i, f, howner, hf, frame?_modify_self hf _, fun r hr => frame?_modify_of_ne hr _,
    (hget id i).written howner.getsTo rfl, hget, lookupEffect_getAt hf⟩

/-- The frame `1` with one slot is inside the outermost one with three, and has a thunk and a frame without
slots in it. -/
def paddedOver : Store :=
  ((((empty.addRoot.define 0 2 (.integer 7)).addChild 0 false).define 1 0 (.integer 5)).addChild 1 true).addChild
    1 false

/-- The frame `1` is filled up, and hides slot `2` of the outermost frame from the frame `3`. -/
theorem assignment_effect_paddedOver :
    paddedOver.Built ∧ 2 < paddedOver.size ∧ paddedOver.get 3 2 = .ok (.integer 7) ∧
      (paddedOver.set 2 4 (.integer 9)).get 2 4 = .ok (.integer 9) ∧
      (paddedOver.set 2 4 (.integer 9)).get 3 2 = .error (.uninitialized 2) ∧
      (paddedOver.set 2 4 (.integer 9)).get 3 0 = paddedOver.get 3 0 ∧
      (paddedOver.set 2 4 (.integer 9)).getAt 3 1 4 = .ok (.integer 9) := by
  have hs : paddedOver.Built :=
    .child false (.child true (.define 1 0 _ (.child false (.define 0 2 _ (.root .empty)) (by decide)))
      (by decide)) (by decide)
  have hid : 2 < paddedOver.size := by decide
  obtain ⟨q, f, -, hf, -, hothers, hself, hget, hgetAt⟩ := assignment_effect hs hid 4 (.integer 9)
  have hq : q = 1 := by
    by_contra hq
    have hsame := hothers 1 (Ne.symm hq)
    revert hsame
    decide +kernel
  subst hq
  have hsize : f.slots.size = 1 := by
    have hframe : (paddedOver.frame? 1).map (·.slots.size) = some 1 := by decide +kernel
    rw [hf] at hframe
    exact Option.some.inj hframe
  have hreach : paddedOver.GetsTo 3 2 1 := ⟨[3], [0], by decide +kernel, by decide +kernel⟩
  refine ⟨hs, hid, by decide +kernel, hself, ?_, ?_, ?_⟩
  · exact (hget 3 2).padded hreach (by omega) (by decide)
  · exact (hget 3 0).kept (by omega)
  · exact (hgetAt 3 1 4).written (by decide +kernel) rfl

end StackMachine.Store
