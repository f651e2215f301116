import StackMachine.Proofs.Machine.Housing

/-!
# What a step does to the frames

However many functions, calls and lists share a frame, only two instructions change one that is there: an
assignment writes one slot of one frame of the chain of the scope, and `unload` makes one slot of the global
frame unwritten. Nothing but a call adds a frame (`FrameEffect`). So a frame stays where it is for ever, its
row of slots only grows, and what has been written outside the global frame stays written
(`frame_effect`).
-/

namespace StackMachine

/-! ### Frames before and after -/

namespace Frame

variable {f g h : Frame} {i : Nat} {v : Datum}

/-- Slot `i` has been written and the row been filled up to it with unwritten slots. -/
structure Written (i : Nat) (v : Datum) (f g : Frame) : Prop where
  size : g.slots.size = max f.slots.size (i + 1)
  written : g.slots[i]? = some (some v)
  others : ∀ j < f.slots.size, j ≠ i → g.slots[j]? = f.slots[j]?
  padding : ∀ j, f.slots.size ≤ j → j < i → g.slots[j]? = some none

/-- Slot `i`, if there is one, has been made unwritten. -/
structure Unloaded (i : Nat) (f g : Frame) : Prop where
  size : g.slots.size = f.slots.size
  unwritten : i < f.slots.size → g.slots[i]? = some none
  others : ∀ j ≠ i, g.slots[j]? = f.slots[j]?

/-- A frame keeps its place, and its row of slots does not get shorter. -/
structure Grown (f g : Frame) : Prop where
  parent : g.parent = f.parent
  transparent : g.transparent = f.transparent
  size : f.slots.size ≤ g.slots.size

/-- What has been written stays written, perhaps anew. -/
def StaysWritten (f g : Frame) : Prop :=
  ∀ (j : Nat) v, f.slots[j]? = some (some v) → ∃ w, g.slots[j]? = some (some w)

theorem written_define (f : Frame) (i : Nat) (v : Datum) : f.Written i v (f.define i v) where
  size := f.size_slots_define i v
  written := by rw [getElem?_slots_define, if_pos rfl]
  others j hj hne := by rw [getElem?_slots_define, if_neg hne, if_pos hj]
  padding j hj hlt := by
    rw [getElem?_slots_define, if_neg (Nat.ne_of_lt hlt), if_neg (Nat.not_lt.2 hj), if_pos hlt]

theorem unloaded_unset (f : Frame) (i : Nat) : f.Unloaded i (f.unset i) where
  size := f.size_slots_unset i
  unwritten hi := by rw [getElem?_slots_unset, if_pos ⟨rfl, hi⟩]
  others j hne := by rw [getElem?_slots_unset, if_neg fun h => hne h.1]

theorem Written.staysWritten (h : f.Written i v g) : f.StaysWritten g := by
  intro j w hj
  by_cases hji : j = i
  · exact ⟨v, hji ▸ h.written⟩
  · have hlt : j < f.slots.size := (Array.getElem?_eq_some_iff.1 hj).1
    exact ⟨w, (h.others j hlt hji).trans hj⟩

theorem Grown.refl (f : Frame) : f.Grown f := ⟨rfl, rfl, Nat.le_refl _⟩

theorem Grown.trans (hfg : f.Grown g) (hgh : g.Grown h) : f.Grown h where
  parent := hgh.parent.trans hfg.parent
  transparent := hgh.transparent.trans hfg.transparent
  size := Nat.le_trans hfg.size hgh.size

theorem StaysWritten.refl (f : Frame) : f.StaysWritten f := fun _ v hv => ⟨v, hv⟩

theorem StaysWritten.trans (hfg : f.StaysWritten g) (hgh : g.StaysWritten h) : f.StaysWritten h := by
  intro j v hv
  obtain ⟨w, hw⟩ := hfg j v hv
  exact hgh j w hw

end Frame

/-! ### Stores before and after -/

namespace Store

variable {s t u : Store} {f : Frame} {id q : FrameId}

/-- Frames stay where they are and grow, and outside the global frame what has been written stays
written. -/
def Grown (s t : Store) : Prop :=
  ∀ ⦃id f⦄, s.frame? id = some f →
    ∃ g, t.frame? id = some g ∧ f.Grown g ∧ (id ≠ globalScope → f.StaysWritten g)

theorem Grown.refl (s : Store) : s.Grown s := fun _ f hf => ⟨f, hf, .refl f, fun _ => .refl f⟩

theorem Grown.trans (hst : s.Grown t) (htu : t.Grown u) : s.Grown u := by
  intro id f hf
  obtain ⟨g, hg, hfg, hwritten⟩ := hst hf
  obtain ⟨h, hh, hgh, hwritten'⟩ := htu hg
  exact ⟨h, hh, hfg.trans hgh, fun hid => (hwritten hid).trans (hwritten' hid)⟩

theorem grown_add (s : Store) (fresh : Frame) : s.Grown (s.add fresh) := fun _ f hf =>
  ⟨f, frame?_add_of_some hf fresh, .refl f, fun _ => .refl f⟩

theorem grown_modify {change : Frame → Frame} (hgrown : ∀ f : Frame, f.Grown (change f))
    (hwritten : id ≠ globalScope → ∀ f : Frame, f.StaysWritten (change f)) : s.Grown (s.modify id change) := by
  intro q f hf
  by_cases hq : q = id
  · subst hq
    exact ⟨change f, frame?_modify_self hf change, hgrown f, fun hid => hwritten hid f⟩
  · exact ⟨f, (frame?_modify_of_ne hq change).trans hf, .refl f, fun _ => .refl f⟩

theorem grown_set (s : Store) (id : FrameId) (i : Nat) (v : Datum) : s.Grown (s.set id i v) := by
  refine grown_modify (fun f => ⟨rfl, rfl, ?_⟩) fun _ f => (f.written_define i v).staysWritten
  rw [Frame.size_slots_define]
  exact Nat.le_max_left _ _

theorem grown_unset (s : Store) (i : Nat) : s.Grown (s.unset globalScope i) :=
  grown_modify (fun f => ⟨rfl, rfl, Nat.le_of_eq (f.size_slots_unset i).symm⟩) fun h => absurd rfl h

end Store

namespace Machine

variable {m : Machine} {s t : State} {store : Store} {op : Opcode}

/-! ### What a step makes of the store -/

/-- The instruction that the next step carries out. -/
def due? (m : Machine) (s : State) : Option Opcode :=
  if s.halted then none else m.program.opcodeAt? s.ip

/-- What a step that meets no fault makes of the store. -/
inductive StoreChange (m : Machine) (s : State) : Store → Prop
  | none : (∀ kind, m.due? s ≠ some (.call kind)) → m.due? s ≠ some .assignment →
    m.due? s ≠ some .unload → StoreChange m s s.store
  | assigned {n : Int64} {v : Datum} {rest : Stack Datum} : m.due? s = some .assignment →
    s.stack = (rest.push v).push (.integer n) → 0 ≤ n.toInt →
    StoreChange m s (s.store.set s.scope n.toInt.toNat v)
  | unloaded {n : Int64} : m.due? s = some .unload → m.program.get? (s.ip + 1) = some (.integer n) →
    0 ≤ n.toInt → StoreChange m s (s.store.unset globalScope n.toInt.toNat)
  | called {kind : CallKind} (f : Frame) : m.due? s = some (.call kind) → StoreChange m s (s.store.add f)

theorem slotIndex_eq_ok {n : Int64} {i : Nat} : m.slotIndex n s = .ok i t ↔
    (0 ≤ n.toInt ∧ n.toInt < m.limits.maxSlots) ∧ n.toInt.toNat = i ∧ s = t := by
  unfold slotIndex
  split
  · next hn => simp [hn, pure_eq_ok]
  · next hn => simp [hn, throw, throwThe, MonadExceptOf.throw, EStateM.throw]

theorem modify_eq_ok {change : State → State} {u : Unit} :
    (modify change : Action Unit) s = .ok u t ↔ t = change s := by
  show EStateM.Result.ok () (change s) = .ok u t ↔ _
  simp [eq_comm]

/-- An assignment finds the address on the stack, and the datum below it. -/
theorem assign_eq_ok {u : Unit} : m.assign s = .ok u t ↔
    ∃ (n : Int64) (v : Datum) (rest : Stack Datum), s.stack = (rest.push v).push (.integer n) ∧
      (0 ≤ n.toInt ∧ n.toInt < m.limits.maxSlots) ∧
      t = { s with stack := rest, store := s.store.set s.scope n.toInt.toNat v } := by
  simp only [assign, bind_eq_ok, pop_eq_ok, asInteger_eq_ok, slotIndex_eq_ok, modify_eq_ok]
  constructor
  · rintro ⟨_, _, ⟨st, hst, rfl⟩, n, _, ⟨rfl, rfl⟩, _, _, ⟨hn, rfl, rfl⟩, v, _, ⟨rest, hrest, rfl⟩, rfl⟩
    obtain rfl : st = rest.push v := hrest
    exact ⟨n, v, rest, hst, hn, rfl⟩
  · rintro ⟨n, v, rest, hst, hn, rfl⟩
    exact ⟨_, _, ⟨_, hst, rfl⟩, n, _, ⟨rfl, rfl⟩, _, _, ⟨hn, rfl, rfl⟩, v, _, ⟨rest, rfl, rfl⟩, rfl⟩

theorem unload_eq_ok {u : Unit} : m.unload s = .ok u t ↔
    ∃ n : Int64, m.program.get? s.ip = some (.integer n) ∧ 0 ≤ n.toInt ∧
      t = { s with ip := s.ip + 1, store := s.store.unset globalScope n.toInt.toNat } := by
  simp only [unload, bind_eq_ok, index_eq_ok, modify_eq_ok]
  constructor
  · rintro ⟨_, _, ⟨n, hn, hpos, rfl, rfl⟩, rfl⟩
    exact ⟨n, hn, hpos, rfl⟩
  · rintro ⟨n, hn, hpos, rfl⟩
    exact ⟨_, _, ⟨n, hn, hpos, rfl, rfl⟩, rfl⟩

theorem storeChange_of_execute {r : Option Event} (hdue : m.due? s = some op) (hfit : Fits m s)
    (hx : m.execute op (announced op s) = .ok r t) : StoreChange m s t.store := by
  by_cases hcall : ∃ kind, op = .call kind
  · obtain ⟨kind, rfl⟩ := hcall
    obtain ⟨e, -, hx⟩ := reported_eq_ok.1 hx
    have hend := callEnd m kind (announced (.call kind) s)
    rw [hx] at hend
    cases hend with
    | tail hp _ _ | saved hp _ _ =>
      rw [eq_of_prepare hp]
      exact .called _ hdue
  have hnone : ∀ kind, m.due? s ≠ some (.call kind) := by
    intro kind hkind
    exact hcall ⟨kind, Option.some.inj (hdue.symm.trans hkind)⟩
  by_cases hret : op = .ret
  · subst hret
    obtain ⟨e, -, hx⟩ := reported_eq_ok.1 hx
    have hend := retEnd m (announced .ret s)
    rw [hx] at hend
    cases hend with
    | resumed => exact .none hnone (by simp [hdue]) (by simp [hdue])
  by_cases hassign : op = .assignment
  · subst hassign
    obtain ⟨_, u, hx, hpure⟩ := bind_eq_ok.1 hx
    obtain ⟨n, v, rest, hst, hn, rfl⟩ := assign_eq_ok.1 hx
    obtain ⟨-, rfl⟩ := pure_eq_ok.1 hpure
    exact .assigned hdue hst hn.1
  by_cases hunload : op = .unload
  · subst hunload
    obtain ⟨_, u, hx, hpure⟩ := bind_eq_ok.1 hx
    obtain ⟨n, hn, hpos, rfl⟩ := unload_eq_ok.1 hx
    obtain ⟨-, rfl⟩ := pure_eq_ok.1 hpure
    exact .unloaded hdue hn hpos
  have hfit' : Fits m (announced op s) := hfit
  have hwrites := ((execute_ends (fun kind h => hcall ⟨kind, h⟩) hret hfit').ok hx).store
  generalize t.store = store at hwrites
  cases hwrites with
  | nothing => exact .none hnone (by simp [hdue, hassign]) (by simp [hdue, hunload])
  | assigned h => exact absurd h hassign
  | unloaded h => exact absurd h hunload

theorem storeChange_next (hfit : Fits m s) (h : ∀ f, (m.step s).status ≠ .faulted f) :
    StoreChange m s (m.next s).store := by
  cases hs : s.halted with
  | true =>
    have hdue : m.due? s = none := if_pos hs
    rw [next, step_of_halted hs]
    exact .none (by simp [hdue]) (by simp [hdue]) (by simp [hdue])
  | false =>
    have hdue : m.due? s = m.program.opcodeAt? s.ip := if_neg (by simp [hs])
    obtain ⟨op, r, hop, hx⟩ := exists_execute_of_not_faulted hs h
    exact storeChange_of_execute (hdue.trans hop) hfit hx

theorem StoreChange.grown (h : StoreChange m s store) : s.store.Grown store := by
  cases h with
  | none => exact .refl _
  | assigned => exact Store.grown_set _ _ _ _
  | unloaded => exact Store.grown_unset _ _
  | called f => exact Store.grown_add _ f

theorem grown_next (hfit : Fits m s) : s.store.Grown (m.next s).store := by
  by_cases h : ∃ f, (m.step s).status = .faulted f
  · obtain ⟨f, hf⟩ := h
    rw [(spent_of_faulted hfit hf).store]
    exact .refl _
  · exact (storeChange_next hfit fun f hf => h ⟨f, hf⟩).grown

theorem grown_after (hfit : Fits m s) (n : Nat) : s.store.Grown (m.after n s).store := by
  have hstep : ∀ t, Fits m t → s.store.Grown t.store → s.store.Grown (m.next t).store :=
    fun _ hfit hgrown => hgrown.trans (grown_next hfit)
  exact hfit.invariant hstep (.refl s.store) ⟨n, rfl⟩

/-! ### Steps without a fault -/

/-- What a step from `s` to `t` that meets no fault does to the frames. -/
structure FrameEffect (m : Machine) (s t : State) : Prop where
  place : ∀ id f, s.store.frame? id = some f →
    ∃ g, t.store.frame? id = some g ∧ g.parent = f.parent ∧ g.transparent = f.transparent
  assignment : m.due? s = some .assignment →
    ∃ (n : Int64) (v : Datum) (rest : Stack Datum) (owner : FrameId) (f g : Frame),
      s.stack = (rest.push v).push (.integer n) ∧ 0 ≤ n.toInt ∧
      owner ∈ s.store.chain s.scope ∧ s.store.frame? owner = some f ∧
      t.store.frame? owner = some g ∧ f.Written n.toInt.toNat v g ∧
      ∀ id ≠ owner, t.store.frame? id = s.store.frame? id
  unload : m.due? s = some .unload →
    ∃ (n : Int64) (f g : Frame),
      m.program.get? (s.ip + 1) = some (.integer n) ∧ 0 ≤ n.toInt ∧
      s.store.frame? globalScope = some f ∧ t.store.frame? globalScope = some g ∧
      f.Unloaded n.toInt.toNat g ∧
      ∀ id ≠ globalScope, t.store.frame? id = s.store.frame? id
  others : m.due? s ≠ some .assignment → m.due? s ≠ some .unload →
    ∀ id f, s.store.frame? id = some f → t.store.frame? id = some f
  call : ∀ kind, m.due? s = some (.call kind) → t.store.size = s.store.size + 1
  noCall : (∀ kind, m.due? s ≠ some (.call kind)) → t.store.size = s.store.size

theorem StoreChange.frameEffect (h : StoreChange m s t.store) (hscope : s.scope < s.store.size)
    (hglobal : globalScope < s.store.size) : FrameEffect m s t where
  place id f hf := by
    obtain ⟨g, hg, hfg, -⟩ := h.grown hf
    exact ⟨g, hg, hfg.parent, hfg.transparent⟩
  assignment hdue := by
    generalize t.store = store at h ⊢
    cases h with
    | none _ hne _ => exact absurd hdue hne
    | @assigned n v rest _ hst hn =>
      have howner := Store.owner_mem_chain hscope n.toInt.toNat
      obtain ⟨f, hf⟩ := Store.exists_frame? (Store.lt_size_of_mem_chain howner)
      exact ⟨n, v, rest, _, f, _, hst, hn, howner, hf, Store.frame?_modify_self hf _,
        f.written_define _ v, fun id hid => Store.frame?_modify_of_ne hid _⟩
    | unloaded hdue' | called _ hdue' => cases hdue.symm.trans hdue'
  unload hdue := by
    generalize t.store = store at h ⊢
    cases h with
    | none _ _ hne => exact absurd hdue hne
    | @unloaded n _ hn hpos =>
      obtain ⟨f, hf⟩ := Store.exists_frame? hglobal
      exact ⟨n, f, _, hn, hpos, hf, Store.frame?_modify_self hf _, f.unloaded_unset _,
        fun id hid => Store.frame?_modify_of_ne hid _⟩
    | assigned hdue' | called _ hdue' => cases hdue.symm.trans hdue'
  others hassign hunload id f hf := by
    generalize t.store = store at h ⊢
    cases h with
    | none => exact hf
    | assigned hdue => exact absurd hdue hassign
    | unloaded hdue => exact absurd hdue hunload
    | called fresh _ => exact Store.frame?_add_of_some hf fresh
  call kind hdue := by
    generalize t.store = store at h ⊢
    cases h with
    | none hne _ _ => exact absurd hdue (hne kind)
    | assigned hdue' | unloaded hdue' => cases hdue.symm.trans hdue'
    | called fresh _ => exact Store.size_add _ fresh
  noCall hne := by
    generalize t.store = store at h ⊢
    cases h with
    | none => rfl
    | assigned | unloaded => exact Store.size_modify _ _ _
    | called _ hdue => exact absurd hdue (hne _)

/-- A step that meets no fault does to the frames what `FrameEffect` tells. Along any run, faults included,
frames grow, and what has been written to a frame other than the global one stays written. -/
theorem frame_effect (hstore : globalScope < store.size) (hs : m.ReachableFrom (.start store) s) :
    ((∀ f, (m.step s).status ≠ .faulted f) → FrameEffect m s (m.next s)) ∧
    ∀ n, s.store.Grown (m.after n s).store := by
  have hfit := hs.fits
  refine ⟨?_, grown_after hfit⟩
  intro h
  have hglobal : globalScope < s.store.size := by
    obtain ⟨n, rfl⟩ := hs
    obtain ⟨f, hf⟩ := Store.exists_frame? hstore
    obtain ⟨g, hg, -⟩ := grown_after (fits_start m store) n hf
    exact Store.lt_size_of_frame? hg
  exact (storeChange_next hfit h).frameEffect (hs.anchored hstore).scope hglobal

/-- The function at `2`, called without arguments, assigns to the slot `2`. -/
def assigningThunk : Machine where
  program := (((((((Builder.empty.opWith .jump 12).functionHeader 0 false).constant (.integer 9)).constant
    (.integer 2)).op .assignment).opWith .function 2).opWith (.call .plain) 0 |>.op .halt).build
  limits := .standard

/-- The assignment goes past the transparent frame `1` to the global one. -/
theorem frame_effect_assigningThunk :
    ∃ s, assigningThunk.ReachableFrom (.start Store.empty.addRoot) s ∧
      assigningThunk.due? s = some .assignment ∧ s.store.chain s.scope = [1, globalScope] ∧
      FrameEffect assigningThunk s (assigningThunk.next s) ∧
      ((assigningThunk.next s).store.frame? globalScope).map Frame.slots =
        some #[none, none, some (.integer 9)] ∧
      s.store.Grown (assigningThunk.after 1 s).store := by
  have hs : assigningThunk.ReachableFrom (.start Store.empty.addRoot)
      (assigningThunk.after 5 (.start Store.empty.addRoot)) := ⟨5, rfl⟩
  have hstatus : (assigningThunk.step
      (assigningThunk.after 5 (.start Store.empty.addRoot))).status = .running := by decide +kernel
  have hfaultless : ∀ f, (assigningThunk.step
      (assigningThunk.after 5 (.start Store.empty.addRoot))).status ≠ .faulted f := by
    intro f hf
    rw [hstatus] at hf
    cases hf
  obtain ⟨heffect, hgrown⟩ := frame_effect (by decide) hs
  exact ⟨_, hs, by decide +kernel, by decide +kernel, heffect hfaultless, by decide +kernel, hgrown 1⟩

end Machine

end StackMachine
