import StackMachine.Store

/-!
# Nested frames

A store is `Nested` if frames are enclosed by older ones and no outermost frame is transparent. Every store
that is made frame by frame is (`Built.nested`), whatever is written to its slots. The frames around a frame
can then be gone through one by one up to an outermost one (`Nested.induction`, `Nested.outward_chain`).

A store is `Hollow` if its transparent frames have no slots. Assignments keep it so, as they never write a
transparent frame (`transparent_owner`).
-/

namespace StackMachine.Store

variable {s : Store} {id q parent : FrameId} {f g : Frame} {i j : Nat} {v d : Datum} {p : Frame → Bool}

theorem lt_size_of_frame? (h : s.frame? id = some f) : id < s.size :=
  (Array.getElem?_eq_some_iff.1 h).1

theorem exists_frame? (h : id < s.size) : ∃ f, s.frame? id = some f :=
  ⟨_, Array.getElem?_eq_getElem h⟩

/-! ### Frames and slots after a change -/

theorem frame?_add_cases (h : (s.add f).frame? q = some g) : q = s.size ∧ g = f ∨ s.frame? q = some g := by
  rw [frame?_add] at h
  split at h
  · next hq =>
    cases h
    exact .inl ⟨hq, rfl⟩
  · exact .inr h

theorem frame?_modify_cases {change : Frame → Frame} (h : (s.modify id change).frame? q = some g) :
    ∃ f, s.frame? q = some f ∧ (g = f ∨ q = id ∧ g = change f) := by
  rw [frame?_modify] at h
  split at h
  · next hq =>
    obtain ⟨f, hf, rfl⟩ := Option.map_eq_some_iff.1 h
    exact ⟨f, hf, .inr ⟨hq, rfl⟩⟩
  · exact ⟨g, h, .inl rfl⟩

theorem frame?_add_of_some (hf : s.frame? id = some f) (fresh : Frame) :
    (s.add fresh).frame? id = some f := by
  rw [frame?_add, if_neg (Nat.ne_of_lt (lt_size_of_frame? hf)), hf]

theorem frame?_modify_self (hf : s.frame? id = some f) (change : Frame → Frame) :
    (s.modify id change).frame? id = some (change f) := by
  rw [frame?_modify, if_pos rfl, hf]
  rfl

theorem frame?_modify_of_ne (hq : q ≠ id) (change : Frame → Frame) :
    (s.modify id change).frame? q = s.frame? q := by
  rw [frame?_modify, if_neg hq]

theorem map_frame?_modify {α : Type} (s : Store) (id q : FrameId) (change : Frame → Frame)
    (part : Frame → α) (h : ∀ f, part (change f) = part f) :
    ((s.modify id change).frame? q).map part = (s.frame? q).map part := by
  rw [frame?_modify]
  split
  · rw [Option.map_map]
    exact congrArg (Option.map · (s.frame? q)) (funext h)
  · rfl

theorem slot_eq_ok : s.slot id i = .ok d ↔ ∃ f, s.frame? id = some f ∧ f.slots[i]? = some (some d) := by
  unfold slot
  cases hf : s.frame? id with
  | none => simp
  | some f =>
    cases hi : f.slots[i]? with
    | none => simp [hi]
    | some o => cases o <;> simp [hi]

theorem slot_add (h : (s.add f).slot id i = .ok d) :
    f.slots[i]? = some (some d) ∨ s.slot id i = .ok d := by
  obtain ⟨g, hg, hi⟩ := slot_eq_ok.1 h
  rcases frame?_add_cases hg with ⟨-, rfl⟩ | hg
  · exact .inl hi
  · exact .inr (slot_eq_ok.2 ⟨g, hg, hi⟩)

theorem slot_define (h : (s.define q i v).slot id j = .ok d) : d = v ∨ s.slot id j = .ok d := by
  obtain ⟨g, hg, hj⟩ := slot_eq_ok.1 h
  obtain ⟨f, hf, rfl | ⟨-, rfl⟩⟩ := frame?_modify_cases hg
  · exact .inr (slot_eq_ok.2 ⟨_, hf, hj⟩)
  rw [Frame.getElem?_slots_define] at hj
  split at hj
  · cases hj
    exact .inl rfl
  · split at hj
    · exact .inr (slot_eq_ok.2 ⟨f, hf, hj⟩)
    · split at hj <;> cases hj

theorem slot_unset (h : (s.unset q i).slot id j = .ok d) : s.slot id j = .ok d := by
  obtain ⟨g, hg, hj⟩ := slot_eq_ok.1 h
  obtain ⟨f, hf, rfl | ⟨-, rfl⟩⟩ := frame?_modify_cases hg
  · exact slot_eq_ok.2 ⟨_, hf, hj⟩
  rw [Frame.getElem?_slots_unset] at hj
  split at hj
  · cases hj
  · exact slot_eq_ok.2 ⟨f, hf, hj⟩

/-! ### The shape of a store -/

/-- Enclosing frames are older, and outermost ones are not transparent. -/
structure Nested (s : Store) : Prop where
  older : ∀ {id f parent}, s.frame? id = some f → f.parent = some parent → parent < id
  outermost : ∀ {id f}, s.frame? id = some f → f.parent = none → f.transparent = false

/-- Transparent frames have no slots. -/
def Hollow (s : Store) : Prop :=
  ∀ ⦃id f⦄, s.frame? id = some f → f.transparent = true → f.slots = #[]

/-! ### Making frames and writing slots -/

/-- The stores that come about when frames are added and their slots are written. An assignment defines a
slot of the frame that it finds. -/
inductive Built : Store → Prop
  | empty : Built .empty
  | root {s : Store} : Built s → Built s.addRoot
  | child {s : Store} {parent : FrameId} (transparent : Bool) : Built s → parent < s.size →
    Built (s.addChild parent transparent)
  | define {s : Store} (id : FrameId) (i : Nat) (v : Datum) : Built s → Built (s.define id i v)
  | unset {s : Store} (id : FrameId) (i : Nat) : Built s → Built (s.unset id i)
  | clear {s : Store} (id : FrameId) : Built s → Built (s.clear id)

theorem Nested.add (hs : s.Nested) (hparent : ∀ {parent}, f.parent = some parent → parent < s.size)
    (houtermost : f.parent = none → f.transparent = false) : (s.add f).Nested where
  older {id g parent} hg hp := by
    rcases frame?_add_cases hg with ⟨rfl, rfl⟩ | hg
    · exact hparent hp
    · exact hs.older hg hp
  outermost {id g} hg hp := by
    rcases frame?_add_cases hg with ⟨-, rfl⟩ | hg
    · exact houtermost hp
    · exact hs.outermost hg hp

theorem Nested.addRoot (hs : s.Nested) : s.addRoot.Nested :=
  hs.add (fun h => by cases h) fun _ => rfl

theorem Nested.addChild (hs : s.Nested) (transparent : Bool) (hparent : parent < s.size) :
    (s.addChild parent transparent).Nested := by
  refine hs.add ?_ fun h => by cases h
  intro outer hp
  cases hp
  exact hparent

theorem Hollow.add (hs : s.Hollow) (hf : f.transparent = true → f.slots = #[]) : (s.add f).Hollow := by
  intro id g hg ht
  rcases frame?_add_cases hg with ⟨-, rfl⟩ | hg
  · exact hf ht
  · exact hs hg ht

theorem Nested.modify (hs : s.Nested) (id : FrameId) {change : Frame → Frame}
    (hparent : ∀ f, (change f).parent = f.parent)
    (htransparent : ∀ f, (change f).transparent = f.transparent) : (s.modify id change).Nested where
  older {q g parent} hg hp := by
    obtain ⟨f, hf, rfl | ⟨-, rfl⟩⟩ := frame?_modify_cases hg
    · exact hs.older hf hp
    · exact hs.older hf (hparent f ▸ hp)
  outermost {q g} hg hp := by
    obtain ⟨f, hf, rfl | ⟨-, rfl⟩⟩ := frame?_modify_cases hg
    · exact hs.outermost hf hp
    · rw [htransparent]
      exact hs.outermost hf (hparent f ▸ hp)

theorem Nested.define (hs : s.Nested) (id : FrameId) (i : Nat) (v : Datum) : (s.define id i v).Nested :=
  hs.modify id (fun _ => rfl) fun _ => rfl

theorem Nested.unset (hs : s.Nested) (id : FrameId) (i : Nat) : (s.unset id i).Nested :=
  hs.modify id (fun _ => rfl) fun _ => rfl

theorem Nested.clear (hs : s.Nested) (id : FrameId) : (s.clear id).Nested :=
  hs.modify id (fun _ => rfl) fun _ => rfl

theorem Built.nested (h : s.Built) : s.Nested := by
  induction h with
  | empty =>
    constructor
    · intro _ _ _ h
      cases h
    · intro _ _ h
      cases h
  | root _ ih => exact ih.addRoot
  | child transparent _ hlt ih => exact ih.addChild transparent hlt
  | define id i v _ ih => exact ih.define id i v
  | unset id i _ ih => exact ih.unset id i
  | clear id _ ih => exact ih.clear id

theorem Hollow.define (hs : s.Hollow) (hid : ∀ f, s.frame? id = some f → f.transparent = false) :
    (s.define id i v).Hollow := by
  intro q g hg ht
  obtain ⟨f, hf, rfl | ⟨rfl, rfl⟩⟩ := frame?_modify_cases hg
  · exact hs hf ht
  · have hfalse : (f.define i v).transparent = false := hid f hf
    rw [hfalse] at ht
    cases ht

theorem Hollow.unset (hs : s.Hollow) (id : FrameId) (i : Nat) : (s.unset id i).Hollow := by
  intro q g hg ht
  obtain ⟨f, hf, rfl | ⟨-, rfl⟩⟩ := frame?_modify_cases hg
  · exact hs hf ht
  · rw [Frame.unset, hs hf ht]
    rfl

/-! ### Going outward -/

theorem Nested.outer? (hs : s.Nested) (hf : s.frame? id = some f) (hp : f.parent = some parent) :
    f.outer? id = some ⟨parent, hs.older hf hp⟩ := by
  rw [Frame.outer?, hp]
  exact dif_pos (hs.older hf hp)

theorem outer?_of_root (hp : f.parent = none) : f.outer? id = none := by
  rw [Frame.outer?, hp]
  rfl

/-- What holds of outermost frames, and of a frame if it holds of the one around it, holds of all. -/
theorem Nested.induction {P : FrameId → Prop} (hs : s.Nested)
    (missing : ∀ id, s.frame? id = none → P id)
    (root : ∀ id f, s.frame? id = some f → f.parent = none → P id)
    (inner : ∀ id f parent, s.frame? id = some f → f.parent = some parent → P parent → P id)
    (id : FrameId) : P id := by
  induction id using Nat.strongRecOn with
  | _ id ih =>
    cases hf : s.frame? id with
    | none => exact missing id hf
    | some f =>
      cases hp : f.parent with
      | none => exact root id f hf hp
      | some parent => exact inner id f parent hf hp (ih parent (hs.older hf hp))

theorem chain_of_missing (hf : s.frame? id = none) : s.chain id = [] := by
  rw [chain, hf]

theorem chain_of_root (hf : s.frame? id = some f) (hp : f.parent = none) : s.chain id = [id] := by
  rw [chain, hf]
  simp only [outer?_of_root hp]

theorem Nested.chain_of_parent (hs : s.Nested) (hf : s.frame? id = some f)
    (hp : f.parent = some parent) : s.chain id = id :: s.chain parent := by
  rw [chain, hf]
  simp only [hs.outer? hf hp]

/-- The chain of a frame depends on the places of the frames up to it alone. -/
theorem chain_congr {t : Store} :
    (∀ q ≤ id, (t.frame? q).map Frame.parent = (s.frame? q).map Frame.parent) →
      t.chain id = s.chain id := by
  fun_induction chain s id with
  | case1 id hf =>
    intro h
    have hid := h id (Nat.le_refl id)
    rw [hf, Option.map_none, Option.map_eq_none_iff] at hid
    exact chain_of_missing hid
  | case2 id f hf ih =>
    intro h
    have hid := h id (Nat.le_refl id)
    rw [hf, Option.map_some] at hid
    obtain ⟨g, hg, hparent⟩ := Option.map_eq_some_iff.1 hid
    have houter : g.outer? id = f.outer? id := by rw [Frame.outer?, Frame.outer?, hparent]
    rw [chain, hg]
    simp only [houter]
    cases ho : f.outer? id with
    | none => rfl
    | some parent =>
      have hchain := ih parent fun q hq => h q (Nat.le_trans hq (Nat.le_of_lt parent.isLt))
      simp only [hchain]

/-- The frames from `id` outward, each the parent of the one before, up to one without a parent. -/
inductive Outward (s : Store) : FrameId → List FrameId → Prop
  | root {id : FrameId} {f : Frame} : s.frame? id = some f → f.parent = none → Outward s id [id]
  | inner {id parent : FrameId} {f : Frame} {ids : List FrameId} : s.frame? id = some f →
    f.parent = some parent → Outward s parent ids → Outward s id (id :: ids)

/-- The chain of a frame goes through its parents up to an outermost frame. -/
theorem Nested.outward_chain (hs : s.Nested) (id : FrameId) :
    id < s.size → s.Outward id (s.chain id) := by
  induction id using hs.induction with
  | missing id hf =>
    intro hid
    obtain ⟨f, hf'⟩ := exists_frame? hid
    rw [hf] at hf'
    cases hf'
  | root id f hf hp =>
    intro _
    rw [chain_of_root hf hp]
    exact .root hf hp
  | inner id f parent hf hp ih =>
    intro hid
    rw [hs.chain_of_parent hf hp]
    exact .inner hf hp (ih (Nat.lt_trans (hs.older hf hp) hid))

theorem Outward.exists_last {ids : List FrameId} (h : s.Outward id ids) :
    ∃ q f, ids.getLast? = some q ∧ s.frame? q = some f ∧ f.parent = none := by
  induction h with
  | @root id f hf hp => exact ⟨id, f, rfl, hf, hp⟩
  | @inner id parent f ids _ _ _ ih =>
    obtain ⟨q, g, hq, hg, hroot⟩ := ih
    refine ⟨q, g, ?_, hg, hroot⟩
    rw [List.getLast?_cons, hq]
    rfl

/-! ### What a search finds -/

theorem find?_some (h : s.find? p id = some q) : ∃ f, s.frame? q = some f ∧ p f = true := by
  rw [find?_eq_find?_chain] at h
  have hq := List.find?_some h
  exact (Option.any_eq_true _ _).1 hq

theorem mem_chain_of_find? (h : s.find? p id = some q) : q ∈ s.chain id := by
  rw [find?_eq_find?_chain] at h
  exact List.mem_of_find?_eq_some h

theorem mem_chain_self (hf : s.frame? id = some f) : id ∈ s.chain id := by
  rw [chain, hf]
  exact List.mem_cons_self

theorem lt_size_of_mem_chain : q ∈ s.chain id → q < s.size := by
  fun_induction chain s id with
  | case1 id hf => simp
  | case2 id f hf ih =>
    intro h
    rcases List.mem_cons.1 h with rfl | h
    · exact lt_size_of_frame? hf
    · split at h
      · cases h
      · next parent _ => exact ih parent h

theorem owner_mem_chain (hid : id < s.size) (i : Nat) : s.owner id i ∈ s.chain id := by
  unfold owner
  cases hcover : s.find? (·.covers i) id with
  | some q => exact mem_chain_of_find? hcover
  | none =>
    cases hsolid : s.find? (!·.transparent) id with
    | some q => exact mem_chain_of_find? hsolid
    | none =>
      obtain ⟨f, hf⟩ := exists_frame? hid
      exact mem_chain_self hf

theorem Nested.exists_find?_solid (hs : s.Nested) (id : FrameId) :
    ∀ f, s.frame? id = some f → ∃ q, s.find? (!·.transparent) id = some q := by
  induction id using hs.induction with
  | missing id hf =>
    intro f hf'
    rw [hf] at hf'
    cases hf'
  | root id f hf hp =>
    intro _ _
    refine ⟨id, ?_⟩
    rw [find?, hf]
    simp [hs.outermost hf hp]
  | inner id f parent hf hp ih =>
    intro _ _
    have hlt : parent < s.size := Nat.lt_trans (hs.older hf hp) (lt_size_of_frame? hf)
    obtain ⟨g, hg⟩ := exists_frame? hlt
    obtain ⟨q, hq⟩ := ih g hg
    rw [find?, hf]
    cases ht : f.transparent with
    | false => exact ⟨id, by simp [ht]⟩
    | true => exact ⟨q, by simp [ht, hs.outer? hf hp, hq]⟩

theorem transparent_owner (hs : s.Nested) (he : s.Hollow) (hf : s.frame? (s.owner id i) = some f) :
    f.transparent = false := by
  unfold owner at hf
  cases hcover : s.find? (·.covers i) id with
  | some q =>
    rw [hcover] at hf
    obtain ⟨g, hg, hi⟩ := find?_some hcover
    obtain rfl : g = f := Option.some.inj (hg.symm.trans hf)
    cases ht : g.transparent with
    | false => rfl
    | true =>
      rw [Frame.covers, he hg ht] at hi
      simp at hi
  | none =>
    rw [hcover] at hf
    cases hsolid : s.find? (!·.transparent) id with
    | some q =>
      rw [hsolid] at hf
      obtain ⟨g, hg, ht⟩ := find?_some hsolid
      obtain rfl : g = f := Option.some.inj (hg.symm.trans hf)
      simpa using ht
    | none =>
      rw [hsolid] at hf
      obtain ⟨q, hq⟩ := hs.exists_find?_solid id f hf
      rw [hsolid] at hq
      cases hq

theorem Nested.set (hs : s.Nested) (id : FrameId) (i : Nat) (v : Datum) : (s.set id i v).Nested :=
  hs.define (s.owner id i) i v

theorem Hollow.set (he : s.Hollow) (hs : s.Nested) (id : FrameId) (i : Nat) (v : Datum) :
    (s.set id i v).Hollow :=
  he.define fun _ hf => transparent_owner hs he hf

end StackMachine.Store
