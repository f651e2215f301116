import StackMachine.Proofs.Store.Nesting

/-!
# Transparent frames can be left out

`erased` is a store in which no frame is enclosed by a transparent one: each is put straight into the first
frame further out that is not transparent. The chain of a frame in it is its chain in the store with the
transparent frames left out (`chain_erased`). As long as transparent frames have no slots, lookups and
assignments cannot tell the two apart (`transparent_erased`), so that a thunk sees and writes what the frame
around it does.
-/

namespace StackMachine.Store

variable {s : Store} {id parent : FrameId} {f : Frame}

def isSolid (s : Store) (id : FrameId) : Bool := (s.frame? id).any (!·.transparent)

/-- The first frame outward that is not transparent. -/
def solid (s : Store) (id : FrameId) : FrameId := (s.find? (!·.transparent) id).getD id

/-- The same frames, each inside the first frame further out that is not transparent. -/
def erased (s : Store) : Store :=
  ⟨s.frames.map fun f => { f with parent := f.parent.map s.solid }⟩

theorem frame?_erased (s : Store) (id : FrameId) :
    s.erased.frame? id = (s.frame? id).map fun f => { f with parent := f.parent.map s.solid } := by
  simp [erased, frame?]

theorem frame?_erased_of_some (hf : s.frame? id = some f) :
    s.erased.frame? id = some { f with parent := f.parent.map s.solid } := by
  rw [frame?_erased, hf]
  rfl

theorem isSolid_erased (s : Store) (id : FrameId) : s.erased.isSolid id = s.isSolid id := by
  rw [isSolid, isSolid, frame?_erased]
  cases s.frame? id <;> rfl

theorem slot_erased (s : Store) (id : FrameId) (i : Nat) : s.erased.slot id i = s.slot id i := by
  rw [slot, slot, frame?_erased]
  cases s.frame? id <;> rfl

/-! ### Chains without transparent frames -/

theorem solid_of_missing (hf : s.frame? id = none) : s.solid id = id := by
  rw [solid, find?, hf]
  rfl

theorem solid_of_solid (hf : s.frame? id = some f) (ht : f.transparent = false) : s.solid id = id := by
  rw [solid, find?, hf]
  simp [ht]

theorem Nested.solid_of_transparent (hs : s.Nested) (hf : s.frame? id = some f)
    (ht : f.transparent = true) (hp : f.parent = some parent) : s.solid id = s.solid parent := by
  have hlt : parent < s.size := Nat.lt_trans (hs.older hf hp) (lt_size_of_frame? hf)
  obtain ⟨g, hg⟩ := exists_frame? hlt
  obtain ⟨q, hq⟩ := hs.exists_find?_solid parent g hg
  rw [solid, solid, hq, find?, hf]
  simp [ht, hs.outer? hf hp, hq]

theorem Nested.solid_le (hs : s.Nested) (id : FrameId) : s.solid id ≤ id := by
  induction id using hs.induction with
  | missing id hf => exact Nat.le_of_eq (solid_of_missing hf)
  | root id f hf hp => exact Nat.le_of_eq (solid_of_solid hf (hs.outermost hf hp))
  | inner id f parent hf hp ih =>
    cases ht : f.transparent with
    | false => exact Nat.le_of_eq (solid_of_solid hf ht)
    | true =>
      rw [hs.solid_of_transparent hf ht hp]
      exact Nat.le_trans ih (Nat.le_of_lt (hs.older hf hp))

theorem Nested.erased (hs : s.Nested) : s.erased.Nested := by
  constructor
  · intro id f parent hf hp
    rw [frame?_erased] at hf
    obtain ⟨g, hg, rfl⟩ := Option.map_eq_some_iff.1 hf
    obtain ⟨outer, ho, rfl⟩ := Option.map_eq_some_iff.1 hp
    exact Nat.lt_of_le_of_lt (hs.solid_le outer) (hs.older hg ho)
  · intro id f hf hp
    rw [frame?_erased] at hf
    obtain ⟨g, hg, rfl⟩ := Option.map_eq_some_iff.1 hf
    have hroot : g.parent = none := Option.map_eq_none_iff.1 hp
    show g.transparent = false
    exact hs.outermost hg hroot

theorem chain_erased (hs : s.Nested) (id : FrameId) :
    s.erased.chain (s.solid id) = (s.chain id).filter s.isSolid := by
  induction id using hs.induction with
  | missing id hf =>
    have hf' : s.erased.frame? id = none := by rw [frame?_erased, hf]; rfl
    rw [solid_of_missing hf, chain_of_missing hf, chain_of_missing hf']
    rfl
  | root id f hf hp =>
    have ht := hs.outermost hf hp
    have hsolid : s.isSolid id = true := by rw [isSolid, hf]; simp [ht]
    have hroot : f.parent.map s.solid = none := by rw [hp]; rfl
    rw [solid_of_solid hf ht, chain_of_root hf hp, chain_of_root (frame?_erased_of_some hf) hroot,
      List.filter_cons_of_pos hsolid]
    rfl
  | inner id f parent hf hp ih =>
    rw [hs.chain_of_parent hf hp]
    cases ht : f.transparent with
    | true =>
      have hnot : ¬s.isSolid id = true := by rw [isSolid, hf]; simp [ht]
      rw [hs.solid_of_transparent hf ht hp, List.filter_cons_of_neg hnot, ih]
    | false =>
      have hsolid : s.isSolid id = true := by rw [isSolid, hf]; simp [ht]
      have houter : f.parent.map s.solid = some (s.solid parent) := by rw [hp]; rfl
      rw [solid_of_solid hf ht, List.filter_cons_of_pos hsolid,
        hs.erased.chain_of_parent (frame?_erased_of_some hf) houter, ih]

/-! ### Searches -/

/-- A search for a frame that is not transparent ends in the same frame. -/
theorem find?_erased (hs : s.Nested) {p : Frame → Bool}
    (hp : ∀ f parent, p { f with parent := parent } = p f)
    (hsolid : ∀ q f, s.frame? q = some f → p f = true → f.transparent = false) (id : FrameId) :
    s.erased.find? p (s.solid id) = s.find? p id := by
  rw [find?_eq_find?_chain, find?_eq_find?_chain, chain_erased hs, List.find?_filter]
  refine congrArg (List.find? · (s.chain id)) (funext fun q => ?_)
  rw [frame?_erased, isSolid]
  cases hf : s.frame? q with
  | none => rfl
  | some f =>
    simp only [Option.any_some, Option.map_some, hp]
    cases hpf : p f with
    | false => simp
    | true => simp [hsolid q f hf hpf]

theorem find?_covers_erased (hs : s.Nested) (he : s.Hollow) (i : Nat) (id : FrameId) :
    s.erased.find? (·.covers i) (s.solid id) = s.find? (·.covers i) id := by
  refine find?_erased hs (fun _ _ => rfl) ?_ id
  intro q f hf hi
  cases ht : f.transparent with
  | false => rfl
  | true =>
    rw [Frame.covers, he hf ht] at hi
    simp at hi

theorem level?_erased (hs : s.Nested) (level : Nat) (id : FrameId) :
    s.erased.level? level (s.solid id) = s.level? level id := by
  have hfilter : ((s.chain id).filter s.isSolid).filter s.erased.isSolid = (s.chain id).filter s.isSolid := by
    rw [funext (isSolid_erased s), List.filter_filter]
    simp
  rw [level?_eq_getElem?_chain, level?_eq_getElem?_chain, chain_erased hs]
  exact congrArg (·[level]?) hfilter

theorem owner_erased (hs : s.Nested) (he : s.Hollow) (id : FrameId) (i : Nat) :
    s.erased.owner (s.solid id) i = s.owner id i := by
  have hsolid : s.erased.find? (!·.transparent) (s.solid id) = s.find? (!·.transparent) id := by
    refine find?_erased hs (fun _ _ => rfl) ?_ id
    intro q f _ ht
    simpa using ht
  rw [owner, owner, find?_covers_erased hs he, hsolid]
  cases hcover : s.find? (·.covers i) id with
  | some q => rfl
  | none =>
    cases hfirst : s.find? (!·.transparent) id with
    | some q => rfl
    | none =>
      show s.solid id = id
      rw [solid, hfirst]
      rfl

/-! ### Assignments -/

theorem chain_define (s : Store) (q : FrameId) (i : Nat) (v : Datum) (id : FrameId) :
    (s.define q i v).chain id = s.chain id :=
  chain_congr fun j _ => map_frame?_modify s q j (·.define i v) Frame.parent fun _ => rfl

theorem isSolid_define (s : Store) (q : FrameId) (i : Nat) (v : Datum) (id : FrameId) :
    (s.define q i v).isSolid id = s.isSolid id := by
  have hany := congrArg (Option.any (!·)) <|
    map_frame?_modify s q id (·.define i v) Frame.transparent fun _ => rfl
  rwa [Option.any_map, Option.any_map] at hany

theorem solid_define (s : Store) (q : FrameId) (i : Nat) (v : Datum) :
    (s.define q i v).solid = s.solid := by
  funext id
  have hsearch : (s.define q i v).find? (!·.transparent) id = s.find? (!·.transparent) id := by
    rw [find?_eq_find?_chain, find?_eq_find?_chain, chain_define]
    exact congrArg (List.find? · (s.chain id)) (funext fun j => isSolid_define s q i v j)
  rw [solid, solid, hsearch]

theorem ext_frame? {s t : Store} (h : ∀ id, s.frame? id = t.frame? id) : s = t := by
  obtain ⟨frames⟩ := s
  obtain ⟨frames'⟩ := t
  exact congrArg mk (Array.ext_getElem? h)

theorem erased_define (s : Store) (q : FrameId) (i : Nat) (v : Datum) :
    (s.define q i v).erased = s.erased.define q i v := by
  refine ext_frame? fun id => ?_
  rw [frame?_erased, solid_define, define, define, frame?_modify, frame?_modify, frame?_erased]
  by_cases h : id = q
  · rw [if_pos h, if_pos h, Option.map_map, Option.map_map]
    rfl
  · rw [if_neg h, if_neg h]

theorem erased_set (hs : s.Nested) (he : s.Hollow) (id : FrameId) (i : Nat) (v : Datum) :
    (s.set id i v).erased = s.erased.set (s.solid id) i v := by
  rw [set, set, owner_erased hs he, erased_define]

structure Write where
  scope : FrameId
  index : Nat
  value : Datum

def writeAll (s : Store) (ws : List Write) : Store :=
  ws.foldl (fun s w => s.set w.scope w.index w.value) s

theorem writeAll_cons (s : Store) (w : Write) (ws : List Write) :
    s.writeAll (w :: ws) = (s.set w.scope w.index w.value).writeAll ws := rfl

theorem shape_writeAll (hs : s.Nested) (he : s.Hollow) (ws : List Write) :
    (s.writeAll ws).Nested ∧ (s.writeAll ws).Hollow ∧ (s.writeAll ws).solid = s.solid := by
  induction ws generalizing s with
  | nil => exact ⟨hs, he, rfl⟩
  | cons w ws ih =>
    obtain ⟨hs', he', hsolid⟩ := ih (hs.set w.scope w.index w.value) (he.set hs w.scope w.index w.value)
    exact ⟨hs', he', hsolid.trans (solid_define _ _ _ _)⟩

theorem erased_writeAll (hs : s.Nested) (he : s.Hollow) (ws : List Write) :
    (s.writeAll ws).erased = s.erased.writeAll (ws.map fun w => { w with scope := s.solid w.scope }) := by
  induction ws generalizing s with
  | nil => rfl
  | cons w ws ih =>
    have hsolid : (s.set w.scope w.index w.value).solid = s.solid := solid_define _ _ _ _
    rw [writeAll_cons, ih (hs.set w.scope w.index w.value) (he.set hs w.scope w.index w.value),
      List.map_cons, writeAll_cons, erased_set hs he, hsolid]

/-! ### The view from a frame -/

/-- Lookups and assignments that start from `id` in the one store and from `id'` in the other find and
write the same frames and leave the same slots. -/
structure SameView (s : Store) (id : FrameId) (t : Store) (id' : FrameId) : Prop where
  get : ∀ i, s.get id i = t.get id' i
  getAt : ∀ level i, s.getAt id level i = t.getAt id' level i
  owner : ∀ i, s.owner id i = t.owner id' i
  slots : ∀ i v j, ((s.set id i v).frame? j).map Frame.slots = ((t.set id' i v).frame? j).map Frame.slots

theorem SameView.symm_trans {t r : Store} {a b c : FrameId} (h : SameView s a r c) (h' : SameView t b r c) :
    SameView s a t b where
  get i := (h.get i).trans (h'.get i).symm
  getAt level i := (h.getAt level i).trans (h'.getAt level i).symm
  owner i := (h.owner i).trans (h'.owner i).symm
  slots i v j := (h.slots i v j).trans (h'.slots i v j).symm

theorem sameView_erased (hs : s.Nested) (he : s.Hollow) (id : FrameId) :
    SameView s id s.erased (s.solid id) where
  get i := by
    rw [get, get, find?_covers_erased hs he]
    cases s.find? (·.covers i) id with
    | none => rfl
    | some q => exact (slot_erased s q i).symm
  getAt level i := by
    rw [getAt, getAt, level?_erased hs]
    cases s.level? level id with
    | none => rfl
    | some q => exact (slot_erased s q i).symm
  owner i := (owner_erased hs he id i).symm
  slots i v j := by
    rw [← erased_set hs he, frame?_erased, Option.map_map]
    rfl

/-- Whatever assignments were made before, the store and the one without transparent frames have the same
slots and look the same from each frame; and a transparent frame looks the same as the one around it. -/
theorem transparent_erased (hs : s.Built) (he : s.Hollow) (ws : List Write) :
    (s.writeAll ws).erased = s.erased.writeAll (ws.map fun w => { w with scope := s.solid w.scope }) ∧
    ∀ id,
      (s.writeAll ws).erased.chain (s.solid id) =
        ((s.writeAll ws).chain id).filter (s.writeAll ws).isSolid ∧
      SameView (s.writeAll ws) id (s.writeAll ws).erased (s.solid id) ∧
      ∀ inner f, s.frame? inner = some f → f.transparent = true → f.parent = some id →
        SameView (s.writeAll ws) inner (s.writeAll ws) id := by
  obtain ⟨hs', he', hsolid⟩ := shape_writeAll hs.nested he ws
  refine ⟨erased_writeAll hs.nested he ws, ?_⟩
  intro id
  have hview := sameView_erased hs' he' id
  have hchain := chain_erased hs' id
  rw [hsolid] at hview hchain
  refine ⟨hchain, hview, ?_⟩
  intro inner f hf ht hp
  have hinner := sameView_erased hs' he' inner
  rw [hsolid, hs.nested.solid_of_transparent hf ht hp] at hinner
  exact hinner.symm_trans hview

/-- A frame with one slot inside the outermost one, and in it a transparent frame inside another. -/
def nestedThunks : Store :=
  (((empty.addRoot.addChild 0 false).define 1 0 (.integer 5)).addChild 1 true).addChild 2 true

/-- Slot `0` is found in the frame `1`, slot `2` in none. -/
theorem transparent_erased_nestedThunks :
    nestedThunks.Built ∧ nestedThunks.Hollow ∧ nestedThunks.solid 3 = 1 ∧
      (nestedThunks.writeAll [⟨3, 0, .integer 6⟩, ⟨3, 2, .integer 7⟩]).chain 3 = [3, 2, 1, 0] ∧
      (nestedThunks.writeAll [⟨3, 0, .integer 6⟩, ⟨3, 2, .integer 7⟩]).erased.chain 1 = [1, 0] ∧
      SameView (nestedThunks.writeAll [⟨3, 0, .integer 6⟩, ⟨3, 2, .integer 7⟩]) 3
        (nestedThunks.writeAll [⟨3, 0, .integer 6⟩, ⟨3, 2, .integer 7⟩]).erased 1 ∧
      SameView (nestedThunks.writeAll [⟨3, 0, .integer 6⟩, ⟨3, 2, .integer 7⟩]) 3
        (nestedThunks.writeAll [⟨3, 0, .integer 6⟩, ⟨3, 2, .integer 7⟩]) 2 := by
  have hs : nestedThunks.Built :=
    .child true (.child true (.define 1 0 _ (.child false (.root .empty) (by decide))) (by decide))
      (by decide)
  have he : nestedThunks.Hollow := by
    have hempty : Hollow empty := by
      intro _ _ h
      cases h
    have hchild : (empty.addRoot.addChild 0 false).Hollow := (hempty.add fun _ => rfl).add fun _ => rfl
    have hslot : ((empty.addRoot.addChild 0 false).define 1 0 (.integer 5)).Hollow := by
      refine hchild.define ?_
      intro f hf
      cases hf
      rfl
    exact (hslot.add fun _ => rfl).add fun _ => rfl
  obtain ⟨-, hall⟩ := transparent_erased hs he [⟨3, 0, .integer 6⟩, ⟨3, 2, .integer 7⟩]
  have hsolid : nestedThunks.solid 3 = 1 := by decide +kernel
  have hchain : (nestedThunks.writeAll [⟨3, 0, .integer 6⟩, ⟨3, 2, .integer 7⟩]).chain 3 = [3, 2, 1, 0] := by
    decide +kernel
  obtain ⟨herased, hview, -⟩ := hall 3
  obtain ⟨-, -, hinner⟩ := hall 2
  rw [hsolid] at herased hview
  rw [hchain] at herased
  exact ⟨hs, he, hsolid, hchain, herased.trans (by decide +kernel), hview, hinner 3 _ rfl rfl rfl⟩

end StackMachine.Store
