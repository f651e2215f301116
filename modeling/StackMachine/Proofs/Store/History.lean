import Mathlib.Data.List.DropRight
import Mathlib.Order.MinMax
import StackMachine.Proofs.Store.Transparent

/-!
# The history of a frame

Frames are made and written by operations that are applied through handles of frames, in any order. Of all
of them only those matter to a frame that were aimed at it (`hits`), and of these only the ones after it
was last cleared (`sinceClear`). They tell how many slots it has and what is in each of them; its parent
and its depth are those that it was made with (`history`).
-/

namespace StackMachine.Store

/-! ### Operations -/

/-- An operation on a store. Each but the first is applied through the handle of a frame. -/
inductive Operation where
  | global
  | child (parent : FrameId) (transparent : Bool)
  | set (scope : FrameId) (i : Nat) (v : Datum)
  | define (id : FrameId) (i : Nat) (v : Datum)
  | unset (id : FrameId) (i : Nat)
  | clear (id : FrameId)

/-- What an operation does to the frame that it is aimed at. -/
inductive Hit where
  | write (i : Nat) (v : Datum)
  | unset (i : Nat)
  | clear
deriving DecidableEq

namespace Operation

def apply (s : Store) : Operation → Store
  | .global => s.addRoot
  | .child parent transparent => s.addChild parent transparent
  | .set scope i v => s.set scope i v
  | .define id i v => s.define id i v
  | .unset id i => s.unset id i
  | .clear id => s.clear id

def handle? : Operation → Option FrameId
  | .global => none
  | .child id _ | .set id _ _ | .define id _ _ | .unset id _ | .clear id => some id

/-- The frame that an operation makes. -/
def fresh? : Operation → Option Frame
  | .global => some ⟨#[], none, false⟩
  | .child parent transparent => some ⟨#[], some parent, transparent⟩
  | .set .. | .define .. | .unset .. | .clear _ => none

/-- The frame that an operation is aimed at. An assignment is aimed at the first frame of the chain that has
the slot, or else at the first one that is not transparent. -/
def target? (s : Store) : Operation → Option FrameId
  | .global | .child .. => none
  | .set scope i _ =>
    ((s.chain scope).find? fun id => (s.frame? id).any (·.covers i)).or ((s.chain scope).find? s.isSolid)
  | .define id _ _ | .unset id _ | .clear id => some id

def hit? : Operation → Option Hit
  | .global | .child .. => none
  | .set _ i v | .define _ i v => some (.write i v)
  | .unset _ i => some (.unset i)
  | .clear _ => some .clear

def Legal (s : Store) (op : Operation) : Prop := ∀ id ∈ op.handle?, id < s.size

instance (s : Store) (op : Operation) : Decidable (op.Legal s) :=
  inferInstanceAs (Decidable (∀ id ∈ op.handle?, id < s.size))

end Operation

def performed (s : Store) (ops : List Operation) : Store := ops.foldl Operation.apply s

/-- Each operation is applied through the handle of a frame that is there by then. -/
def Legal : Store → List Operation → Prop
  | _, [] => True
  | s, op :: ops => op.Legal s ∧ Legal (op.apply s) ops

instance decidableLegal : (s : Store) → (ops : List Operation) → Decidable (s.Legal ops)
  | _, [] => isTrue trivial
  | s, op :: ops =>
    have := decidableLegal (op.apply s) ops
    inferInstanceAs (Decidable (_ ∧ _))

def hits (id : FrameId) : Store → List Operation → List Hit
  | _, [] => []
  | s, op :: ops => (if op.target? s = some id then op.hit?.toList else []) ++ hits id (op.apply s) ops

/-! ### What hits leave -/

namespace Hit

def replay (f : Frame) : Hit → Frame
  | .write i v => f.define i v
  | .unset i => f.unset i
  | .clear => f.clear

def isClear : Hit → Bool
  | .clear => true
  | .write .. | .unset _ => false

def index? : Hit → Option Nat
  | .write i _ => some i
  | .unset _ | .clear => none

def concerns (i : Nat) : Hit → Bool
  | .write j _ | .unset j => j == i
  | .clear => false

def value? : Hit → Option Datum
  | .write _ v => some v
  | .unset _ | .clear => none

end Hit

def sinceClear (hs : List Hit) : List Hit := hs.rtakeWhile (!·.isClear)

/-- One more than the largest index written, or zero if there is none. -/
def slotCount (hs : List Hit) : Nat := (hs.filterMap Hit.index?).max?.elim 0 (· + 1)

/-- What the last write to slot `i` has put there, unless the slot was unset later on. -/
def content (i : Nat) (hs : List Hit) : Option Datum := (hs.reverse.find? (·.concerns i)).bind Hit.value?

/-- The slots of the frame are what some hits have left, none of them a clear. -/
structure Shows (hs : List Hit) (f : Frame) : Prop where
  size : f.slots.size = slotCount hs
  slot : ∀ i < f.slots.size, f.slots[i]? = some (content i hs)

variable {s t : Store} {id : FrameId} {f fresh : Frame} {op : Operation} {ops : List Operation}
  {hs : List Hit} {i j : Nat} {v : Datum}

theorem mem_filterMap_index? : i ∈ hs.filterMap Hit.index? ↔ ∃ v, .write i v ∈ hs := by
  rw [List.mem_filterMap]
  constructor
  · rintro ⟨h, hmem, hi⟩
    cases h with
    | write k v =>
      cases hi
      exact ⟨v, hmem⟩
    | unset | clear => cases hi
  · rintro ⟨v, hmem⟩
    exact ⟨_, hmem, rfl⟩

theorem lt_slotCount_iff : j < slotCount hs ↔ ∃ i v, .write i v ∈ hs ∧ j ≤ i := by
  unfold slotCount
  cases hmax : (hs.filterMap Hit.index?).max? with
  | none =>
    have hnil := List.max?_eq_none_iff.1 hmax
    constructor
    · intro h
      cases h
    · rintro ⟨i, v, hmem, -⟩
      have hi := mem_filterMap_index?.2 ⟨v, hmem⟩
      rw [hnil] at hi
      cases hi
  | some k =>
    obtain ⟨hk, hle⟩ := List.max?_eq_some_iff.1 hmax
    constructor
    · intro h
      obtain ⟨v, hv⟩ := mem_filterMap_index?.1 hk
      exact ⟨k, v, hv, Nat.le_of_lt_succ h⟩
    · rintro ⟨i, v, hmem, hji⟩
      exact Nat.lt_succ_of_le (Nat.le_trans hji (hle i (mem_filterMap_index?.2 ⟨v, hmem⟩)))

theorem slotCount_write : slotCount (hs ++ [.write i v]) = max (slotCount hs) (i + 1) := by
  refine eq_of_forall_lt_iff fun j => ?_
  rw [lt_max_iff, lt_slotCount_iff, lt_slotCount_iff]
  constructor
  · rintro ⟨k, w, hmem, hjk⟩
    rcases List.mem_append.1 hmem with hmem | hmem
    · exact .inl ⟨k, w, hmem, hjk⟩
    · cases List.mem_singleton.1 hmem
      exact .inr (Nat.lt_succ_of_le hjk)
  · rintro (⟨k, w, hmem, hjk⟩ | hj)
    · exact ⟨k, w, List.mem_append_left _ hmem, hjk⟩
    · exact ⟨i, v, List.mem_append_right _ (List.mem_singleton_self _), Nat.le_of_lt_succ hj⟩

theorem slotCount_unset : slotCount (hs ++ [.unset i]) = slotCount hs := by
  rw [slotCount, List.filterMap_append]
  exact congrArg (fun l : List Nat => l.max?.elim 0 (· + 1)) (List.append_nil _)

theorem content_concat {h : Hit} :
    content i (hs ++ [h]) = if h.concerns i then h.value? else content i hs := by
  cases hc : h.concerns i <;> simp [content, hc]

theorem content_of_le (h : slotCount hs ≤ i) : content i hs = none := by
  unfold content
  cases hfind : hs.reverse.find? (·.concerns i) with
  | none => rfl
  | some hit =>
    have hconcerns := List.find?_some hfind
    cases hit with
    | write k v =>
      obtain rfl : k = i := by simpa [Hit.concerns] using hconcerns
      have hmem := List.mem_reverse.1 (List.mem_of_find?_eq_some hfind)
      exact absurd (lt_slotCount_iff.2 ⟨k, v, hmem, Nat.le_refl k⟩) (Nat.not_lt.2 h)
    | unset | clear => rfl

theorem shows_nil (hf : f.slots = #[]) : Shows [] f where
  size := by
    rw [hf]
    rfl
  slot i hi := by
    rw [hf] at hi
    exact absurd hi (Nat.not_lt_zero i)

theorem content_write_of_ne (h : j ≠ i) : content j (hs ++ [.write i v]) = content j hs := by
  rw [content_concat, if_neg (by simp [Hit.concerns, Ne.symm h])]

theorem content_unset_of_ne (h : j ≠ i) : content j (hs ++ [.unset i]) = content j hs := by
  rw [content_concat, if_neg (by simp [Hit.concerns, Ne.symm h])]

theorem Shows.write (h : Shows hs f) (i : Nat) (v : Datum) :
    Shows (hs ++ [.write i v]) (f.define i v) where
  size := by rw [Frame.size_slots_define, slotCount_write, h.size]
  slot j hj := by
    rw [Frame.getElem?_slots_define]
    by_cases hji : j = i
    · rw [if_pos hji, content_concat, if_pos (by simp [Hit.concerns, hji])]
      rfl
    rw [if_neg hji, content_write_of_ne hji]
    by_cases hold : j < f.slots.size
    · rw [if_pos hold]
      exact h.slot j hold
    · have hlt : j < i := by
        rw [Frame.size_slots_define] at hj
        omega
      rw [if_neg hold, if_pos hlt, content_of_le (h.size ▸ Nat.not_lt.1 hold)]

theorem Shows.unset (h : Shows hs f) (i : Nat) : Shows (hs ++ [.unset i]) (f.unset i) where
  size := by rw [Frame.size_slots_unset, slotCount_unset, h.size]
  slot j hj := by
    rw [Frame.size_slots_unset] at hj
    rw [Frame.getElem?_slots_unset]
    by_cases hji : j = i
    · rw [if_pos ⟨hji, hj⟩, content_concat, if_pos (by simp [Hit.concerns, hji])]
      rfl
    · rw [if_neg fun hand => hji hand.1, content_unset_of_ne hji]
      exact h.slot j hj

/-- An empty frame shows the hits that it has taken since it was last cleared. -/
theorem shows_replay (hf : f.slots = #[]) (hs : List Hit) :
    Shows (sinceClear hs) (hs.foldl Hit.replay f) := by
  induction hs using List.reverseRecOn with
  | nil => exact shows_nil hf
  | append_singleton hs h ih =>
    rw [List.foldl_append]
    unfold sinceClear
    cases h with
    | write i v =>
      rw [List.rtakeWhile_concat_pos _ _ _ rfl]
      exact ih.write i v
    | unset i =>
      rw [List.rtakeWhile_concat_pos _ _ _ rfl]
      exact ih.unset i
    | clear =>
      rw [List.rtakeWhile_concat_neg _ _ _ (by simp [Hit.isClear])]
      exact shows_nil rfl

theorem place_replay (f : Frame) (hs : List Hit) :
    (hs.foldl Hit.replay f).parent = f.parent ∧ (hs.foldl Hit.replay f).transparent = f.transparent := by
  induction hs generalizing f with
  | nil => exact ⟨rfl, rfl⟩
  | cons h hs ih =>
    have hplace : (h.replay f).parent = f.parent ∧ (h.replay f).transparent = f.transparent := by
      cases h <;> exact ⟨rfl, rfl⟩
    rw [List.foldl_cons, (ih _).1, (ih _).2]
    exact hplace

/-! ### Operations, one by one -/

/-- The frame that an assignment is aimed at is the one that it writes. -/
theorem target?_set (hs : s.Nested) (hid : id < s.size) :
    (Operation.set id i v).target? s = some (s.owner id i) := by
  obtain ⟨f, hf⟩ := exists_frame? hid
  obtain ⟨q, hq⟩ := hs.exists_find?_solid id f hf
  have hsolid : (s.chain id).find? s.isSolid = some q := (find?_eq_find?_chain s _ id).symm.trans hq
  rw [Operation.target?, owner, hsolid, hq, find?_eq_find?_chain]
  cases (s.chain id).find? fun id => (s.frame? id).any (·.covers i) with
  | some owner => rfl
  | none => rfl

theorem target?_lt (hs : s.Nested) (hop : op.Legal s) (ht : op.target? s = some id) : id < s.size := by
  cases op with
  | global | child => cases ht
  | set scope i v =>
    have hscope : scope < s.size := hop scope rfl
    rw [target?_set hs hscope] at ht
    cases ht
    exact lt_size_of_mem_chain (owner_mem_chain hscope i)
  | define q i v | unset q i | clear q =>
    cases ht
    exact hop _ rfl

theorem Nested.apply (hs : s.Nested) (hop : op.Legal s) : (op.apply s).Nested := by
  cases op with
  | global => exact hs.addRoot
  | child parent transparent => exact hs.addChild transparent (hop parent rfl)
  | set scope i v => exact hs.set scope i v
  | define id i v => exact hs.define id i v
  | unset id i => exact hs.unset id i
  | clear id => exact hs.clear id

theorem apply_of_fresh? (h : op.fresh? = some fresh) :
    op.apply s = s.add fresh ∧ op.target? s = none ∧ fresh.slots = #[] := by
  cases op with
  | global | child =>
    cases h
    exact ⟨rfl, rfl, rfl⟩
  | set | define | unset | clear => cases h

theorem size_le_apply (s : Store) (op : Operation) : s.size ≤ (op.apply s).size := by
  cases op with
  | global | child => exact Nat.le_of_lt (Nat.lt_of_lt_of_eq (Nat.lt_succ_self _) (size_add _ _).symm)
  | set | define | unset | clear => exact Nat.le_of_eq (size_modify _ _ _).symm

theorem frame?_modify_replay (hf : s.frame? id = some f) (q : FrameId) (h : Hit) :
    (s.modify q (Hit.replay · h)).frame? id =
      some ((if some q = some id then [h] else []).foldl Hit.replay f) := by
  by_cases hq : q = id
  · subst hq
    rw [if_pos rfl]
    exact frame?_modify_self hf _
  · rw [if_neg fun he => hq (Option.some.inj he), frame?_modify_of_ne (Ne.symm hq)]
    exact hf

theorem frame?_apply (hs : s.Nested) (hop : op.Legal s) (hf : s.frame? id = some f) :
    (op.apply s).frame? id =
      some ((if op.target? s = some id then op.hit?.toList else []).foldl Hit.replay f) := by
  cases op with
  | global | child => exact frame?_add_of_some hf _
  | set scope i v =>
    rw [target?_set hs (hop scope rfl)]
    exact frame?_modify_replay hf (s.owner scope i) (.write i v)
  | define q i v => exact frame?_modify_replay hf q (.write i v)
  | unset q i => exact frame?_modify_replay hf q (.unset i)
  | clear q => exact frame?_modify_replay hf q .clear

theorem frame?_apply_of_ne (hs : s.Nested) (hop : op.Legal s) (hf : s.frame? id = some f)
    (h : op.target? s ≠ some id) : (op.apply s).frame? id = some f := by
  rw [frame?_apply hs hop hf, if_neg h]
  rfl

/-! ### Operations, one after another -/

theorem legal_append {ops' : List Operation} :
    s.Legal (ops ++ ops') ↔ s.Legal ops ∧ (s.performed ops).Legal ops' := by
  induction ops generalizing s with
  | nil => exact iff_of_eq (true_and _).symm
  | cons op ops ih =>
    change op.Legal s ∧ (op.apply s).Legal (ops ++ ops') ↔ _
    rw [ih, ← and_assoc]
    rfl

theorem hits_append {ops' : List Operation} :
    hits id s (ops ++ ops') = hits id s ops ++ hits id (s.performed ops) ops' := by
  induction ops generalizing s with
  | nil => rfl
  | cons op ops ih =>
    rw [List.cons_append, hits, hits, ih, List.append_assoc]
    rfl

theorem performed_append {ops' : List Operation} :
    s.performed (ops ++ ops') = (s.performed ops).performed ops' :=
  List.foldl_append

theorem Nested.performed (hs : s.Nested) (hops : s.Legal ops) : (s.performed ops).Nested := by
  induction ops generalizing s with
  | nil => exact hs
  | cons op ops ih => exact ih (hs.apply hops.1) hops.2

theorem size_le_performed (s : Store) (ops : List Operation) : s.size ≤ (s.performed ops).size := by
  induction ops generalizing s with
  | nil => exact Nat.le_refl _
  | cons op ops ih => exact Nat.le_trans (size_le_apply s op) (ih (op.apply s))

/-- The hits that a frame has taken are all that has happened to it. -/
theorem frame?_performed (hs : s.Nested) (hops : s.Legal ops) (hf : s.frame? id = some f) :
    (s.performed ops).frame? id = some ((hits id s ops).foldl Hit.replay f) := by
  induction ops generalizing s f with
  | nil => exact hf
  | cons op ops ih =>
    rw [hits, List.foldl_append]
    exact ih (hs.apply hops.1) hops.2 (frame?_apply hs hops.1 hf)

theorem hits_eq_nil (hs : s.Nested) (hops : s.Legal ops) (h : (s.performed ops).size ≤ id) :
    hits id s ops = [] := by
  induction ops generalizing s with
  | nil => rfl
  | cons op ops ih =>
    have hlt : ¬ op.target? s = some id := by
      intro ht
      have hsize := size_le_performed s (op :: ops)
      exact absurd (Nat.lt_of_lt_of_le (target?_lt hs hops.1 ht) hsize) (Nat.not_lt.2 h)
    rw [hits, if_neg hlt, List.nil_append]
    exact ih (hs.apply hops.1) hops.2 h

theorem chain_performed (hs : s.Nested) (hops : s.Legal ops) (hid : id < s.size) :
    (s.performed ops).chain id = s.chain id := by
  refine chain_congr fun q hq => ?_
  obtain ⟨f, hf⟩ := exists_frame? (Nat.lt_of_le_of_lt hq hid)
  rw [frame?_performed hs hops hf, hf, Option.map_some, Option.map_some, (place_replay f _).1]

theorem chain_add_of_lt (hid : id < s.size) : (s.add fresh).chain id = s.chain id := by
  refine chain_congr fun q hq => ?_
  obtain ⟨f, hf⟩ := exists_frame? (Nat.lt_of_le_of_lt hq hid)
  rw [frame?_add_of_some hf, hf]

theorem depth_add (hs : (s.add fresh).Nested) :
    (s.add fresh).depth s.size = fresh.parent.elim 0 fun parent => s.depth parent + 1 := by
  have hfresh : (s.add fresh).frame? s.size = some fresh := by rw [frame?_add, if_pos rfl]
  cases hp : fresh.parent with
  | none =>
    rw [depth, chain_of_root hfresh hp]
    rfl
  | some parent =>
    have hlt : parent < s.size := hs.older hfresh hp
    obtain ⟨f, hf⟩ := exists_frame? hlt
    have hpos := List.length_pos_of_mem (mem_chain_self hf)
    rw [depth, hs.chain_of_parent hfresh hp, chain_add_of_lt hlt, List.length_cons, Nat.add_sub_cancel]
    exact (Nat.sub_add_cancel hpos).symm

/-- What the operations since the last clear have put into a frame is all that it shows. Its place is that
which it was made with, and operations that are aimed elsewhere leave it as it is. -/
theorem history (before after : List Operation) (op : Operation) (fresh : Frame)
    (hops : empty.Legal (before ++ op :: after)) (hfresh : op.fresh? = some fresh) :
    let made := empty.performed before
    let id := made.size
    let s := empty.performed (before ++ op :: after)
    let hs := sinceClear (hits id empty (before ++ op :: after))
    ∃ f, s.frame? id = some f ∧ Shows hs f ∧
      f.parent = fresh.parent ∧ f.transparent = fresh.transparent ∧
      s.depth id = fresh.parent.elim 0 (fun parent => made.depth parent + 1) ∧
      ∀ next : Operation, next.Legal s → next.target? s ≠ some id → (next.apply s).frame? id = some f := by
  intro made id s hs
  obtain ⟨hbefore, hop, hafter⟩ := legal_append.1 hops
  obtain ⟨happly, htarget, hslots⟩ := apply_of_fresh? (s := made) hfresh
  have hmade : made.Nested := Built.empty.nested.performed hbefore
  have hadded : (made.add fresh).Nested := happly ▸ hmade.apply hop
  rw [happly] at hafter
  have hs_eq : s = (made.add fresh).performed after := by
    rw [← happly]
    exact performed_append
  -- Neither what came before the frame was made nor its making is aimed at it.
  have hhits : hits id empty (before ++ op :: after) = hits id (made.add fresh) after := by
    rw [hits_append, hits_eq_nil Built.empty.nested hbefore (Nat.le_refl _), hits, htarget, happly]
    rfl
  have hf : s.frame? id = some ((hits id (made.add fresh) after).foldl Hit.replay fresh) := by
    rw [hs_eq]
    exact frame?_performed hadded hafter (by rw [frame?_add, if_pos rfl])
  have hshows := shows_replay hslots (hits id (made.add fresh) after)
  obtain ⟨hparent, htransparent⟩ := place_replay fresh (hits id (made.add fresh) after)
  have hdepth : s.depth id = (made.add fresh).depth id := by
    rw [depth, hs_eq, chain_performed hadded hafter (by rw [size_add]; exact Nat.lt_succ_self _)]
    rfl
  refine ⟨_, hf, hhits ▸ hshows, hparent, htransparent, hdepth.trans (depth_add hadded), ?_⟩
  intro next hnext htarget
  exact frame?_apply_of_ne (Built.empty.nested.performed hops) hnext hf htarget

/-- A frame inside the outermost one is cleared after a thunk in it has written it. The next assignment by the
thunk passes it by, as only the outermost frame has the slot by then. -/
def clearedAndRefilled : List Operation :=
  [.child 1 true, .set 2 1 (.integer 5), .define 0 0 (.integer 7), .clear 1, .set 2 0 (.integer 6),
    .define 1 3 (.integer 8), .define 1 1 (.integer 9), .unset 1 3]

theorem history_clearedAndRefilled :
    empty.Legal (.global :: .child 0 false :: clearedAndRefilled) ∧
    hits 1 empty (.global :: .child 0 false :: clearedAndRefilled) =
      [.write 1 (.integer 5), .clear, .write 3 (.integer 8), .write 1 (.integer 9), .unset 3] ∧
    ∃ f, (empty.performed (.global :: .child 0 false :: clearedAndRefilled)).frame? 1 = some f ∧
      f.slots.size = 4 ∧ f.slots[1]? = some (some (.integer 9)) ∧ f.slots[3]? = some none ∧
      f.parent = some 0 ∧
      (empty.performed (.global :: .child 0 false :: clearedAndRefilled)).depth 1 = 1 := by
  have hlegal : empty.Legal (.global :: .child 0 false :: clearedAndRefilled) := by decide +kernel
  have hhits : hits 1 empty (.global :: .child 0 false :: clearedAndRefilled) =
      [.write 1 (.integer 5), .clear, .write 3 (.integer 8), .write 1 (.integer 9), .unset 3] := by
    decide +kernel
  obtain ⟨f, hf, hshows, hparent, -, hdepth, -⟩ :=
    history [.global] clearedAndRefilled (.child 0 false) ⟨#[], some 0, false⟩ hlegal rfl
  have hsize : f.slots.size = 4 := hshows.size.trans (by decide +kernel)
  exact ⟨hlegal, hhits, f, hf, hsize, (hshows.slot 1 (by omega)).trans (by decide +kernel),
    (hshows.slot 3 (by omega)).trans (by decide +kernel), hparent, hdepth.trans (by decide +kernel)⟩

end StackMachine.Store
