import StackMachine.Proofs.Machine.Effect
import StackMachine.Proofs.Store.Nesting

/-!
# Limits are kept

In every state that is reached the stack is within its capacity, the calls within their depth and the
slots of a frame within `slotBound` (`within_limits`). Each limit is checked where the resource grows but
for one: a call fills the slots of its frame unchecked. They hold what stood apart on the stack
(`Invocation.From`), and so are no more than the stack could hold.
-/

namespace StackMachine.Machine

variable {m : Machine} {s t : State} {store : Store} {id : FrameId} {f : Frame}

/-- The number of slots that a frame may have. Only the global frame is never that of a call. -/
def slotBound (m : Machine) (id : FrameId) : Nat :=
  if id = globalScope then m.limits.maxSlots else max m.limits.maxSlots m.limits.stackCapacity

theorem maxSlots_le_slotBound (m : Machine) (id : FrameId) : m.limits.maxSlots ≤ m.slotBound id := by
  unfold slotBound
  split
  · exact Nat.le_refl _
  · exact Nat.le_max_left _ _

theorem slotBound_of_pos (h : 0 < id) :
    m.slotBound id = max m.limits.maxSlots m.limits.stackCapacity :=
  if_neg (Nat.ne_of_gt h)

/-! ### Slots -/

def SlotsWithin (m : Machine) (store : Store) : Prop :=
  ∀ ⦃id f⦄, store.frame? id = some f → f.slots.size ≤ m.slotBound id

namespace SlotsWithin

theorem define (h : SlotsWithin m store) {i : Nat} (hi : i < m.limits.maxSlots) (id : FrameId)
    (v : Datum) : SlotsWithin m (store.define id i v) := by
  intro q g hg
  obtain ⟨f, hf, rfl | ⟨-, rfl⟩⟩ := Store.frame?_modify_cases hg
  · exact h hf
  · have hold := h hf
    have hmax := m.maxSlots_le_slotBound q
    rw [Frame.size_slots_define]
    omega

theorem unset (h : SlotsWithin m store) (id : FrameId) (i : Nat) : SlotsWithin m (store.unset id i) := by
  intro q g hg
  obtain ⟨f, hf, rfl | ⟨-, rfl⟩⟩ := Store.frame?_modify_cases hg
  · exact h hf
  · rw [Frame.size_slots_unset]
    exact h hf

theorem add (h : SlotsWithin m store) (hf : f.slots.size ≤ m.slotBound store.size) :
    SlotsWithin m (store.add f) := by
  intro q g hg
  rcases Store.frame?_add_cases hg with ⟨rfl, rfl⟩ | hg
  · exact hf
  · exact h hg

theorem writes {op : Opcode} (h : SlotsWithin m s.store) (hst : Writes m op s store) :
    SlotsWithin m store := by
  cases hst with
  | nothing => exact h
  | @assigned i v _ hi _ => exact h.define hi _ v
  | @unloaded i _ => exact h.unset globalScope i

end SlotsWithin

/-! ### Steps -/

/-- A state that is within the limits, and has a global frame. -/
structure WithinLimits (m : Machine) (s : State) : Prop where
  fits : Fits m s
  calls : s.callDepth ≤ m.limits.maxCallDepth
  global : globalScope < s.store.size
  slots : SlotsWithin m s.store

namespace WithinLimits

theorem congr (h : WithinLimits m s) (hfit : Fits m t) (hcalls : t.calls = s.calls)
    (hstore : t.store = s.store) : WithinLimits m t where
  fits := hfit
  calls := by
    rw [State.callDepth, hcalls]
    exact h.calls
  global := hstore ▸ h.global
  slots := hstore ▸ h.slots

theorem of_local {op : Opcode} (h : WithinLimits m s) (hfit : Fits m t) (hst : Local m op s t) :
    WithinLimits m t where
  fits := hfit
  calls := by
    rw [State.callDepth, hst.calls]
    exact h.calls
  global := by
    rw [hst.store.size]
    exact h.global
  slots := h.slots.writes hst.store

/-- The slots of a call stood on the stack, so there is room for them in its frame. -/
theorem entered {c : Invocation} (h : WithinLimits m s) (hc : c.slots.length ≤ m.limits.stackCapacity) :
    WithinLimits m (entered c s) where
  fits := h.fits
  calls := h.calls
  global := by
    show globalScope < (s.store.add _).size
    rw [Store.size_add]
    exact Nat.lt_succ_of_lt h.global
  slots := by
    refine h.slots.add ?_
    rw [slotBound_of_pos h.global]
    have hsize : (activation c.callee c.slots).slots.size = c.slots.length := by simp [activation]
    omega

theorem next (h : WithinLimits m s) : WithinLimits m (m.next s) := by
  have hfit := h.fits.next
  rcases spent_or_done h.fits with hspent | hdone
  · exact h.congr hfit hspent.calls hspent.store
  generalize m.next s = t at hfit hdone
  have hslots : ∀ {op : Opcode} {c : Invocation} {u : State}, m.prepare (announced op s) = .ok c u →
      c.slots.length ≤ m.limits.stackCapacity :=
    fun hp => Nat.le_trans (from_of_prepare hp).length h.fits
  cases hdone with
  | still _ => exact h
  | @instruction op _ _ hst =>
    have hannounced : WithinLimits m (announced op s) := h.congr h.fits rfl rfl
    exact hannounced.of_local hfit hst
  | @tailCalled c u _ hp _ =>
    have hu := eq_of_prepare hp
    have hwithin : WithinLimits m u := h.congr hfit (by rw [hu]; rfl) (by rw [hu]; rfl)
    exact hwithin.entered (hslots hp)
  | @called kind c u _ hp _ hlt =>
    have hu := eq_of_prepare hp
    have hwithin : WithinLimits m u := h.congr hfit (by rw [hu]; rfl) (by rw [hu]; rfl)
    have hsaved : WithinLimits m (saved u) := { hwithin with calls := hlt }
    exact hsaved.entered (hslots hp)
  | @returned st v calls f _ _ hc =>
    have hcalls : calls.height ≤ m.limits.maxCallDepth := by
      have hbefore := h.calls
      rw [State.callDepth, hc, Stack.height_push] at hbefore
      omega
    exact { h with fits := hfit, calls := hcalls }

end WithinLimits

theorem withinLimits_initial (m : Machine) : WithinLimits m .initial where
  fits := Nat.zero_le _
  calls := Nat.zero_le _
  global := Nat.zero_lt_one
  slots := by
    intro id f hf
    rcases Store.frame?_add_cases hf with ⟨-, rfl⟩ | hold
    · exact Nat.zero_le _
    · cases hold

/-- No step leads beyond the limits, whether it meets a fault or not. -/
theorem within_limits (hs : m.Reachable s) :
    s.stack.height ≤ m.limits.stackCapacity ∧ s.callDepth ≤ m.limits.maxCallDepth ∧
    (∃ f, s.store.frame? globalScope = some f ∧ f.slots.size ≤ m.limits.maxSlots) ∧
    ∀ id f, s.store.frame? id = some f →
      f.slots.size ≤ max m.limits.maxSlots m.limits.stackCapacity := by
  have h : WithinLimits m s := hs.invariant (withinLimits_initial m) fun _ hs => hs.next
  obtain ⟨g, hg⟩ := Store.exists_frame? h.global
  refine ⟨h.fits, h.calls, ⟨g, hg, h.slots hg⟩, ?_⟩
  intro id f hf
  have hbound := h.slots hf
  unfold slotBound at hbound
  split at hbound
  · exact Nat.le_trans hbound (Nat.le_max_left _ _)
  · exact hbound

/-- The function at `2` is called with one argument and has a second slot for the list of further ones,
although no assignment could make a slot. -/
def narrow : Machine where
  program := ((((((((Builder.empty.opWith .jump 10).functionHeader 2 true).constant (.integer 1)).op
    .ret).opWith .function 2).constant (.integer 5)).opWith (.call .plain) 1).op .halt).build
  limits := ⟨2, 1, 0⟩

theorem within_limits_narrow :
    ∃ s f, narrow.Reachable s ∧ s.callDepth = 1 ∧ s.store.frame? 1 = some f ∧ f.slots.size = 2 ∧
      f.slots.size ≤ max 0 2 ∧ s.callDepth ≤ 1 ∧ s.stack.height ≤ 2 := by
  have hs : narrow.Reachable (narrow.after 4 .initial) := ⟨4, rfl⟩
  obtain ⟨hstack, hcalls, -, hframes⟩ := within_limits hs
  have hf : ((narrow.after 4 .initial).store.frame? 1).map (·.slots.size) = some 2 := by decide +kernel
  obtain ⟨f, hframe, hsize⟩ := Option.map_eq_some_iff.1 hf
  exact ⟨_, f, hs, by decide +kernel, hframe, hsize, hframes 1 f hframe, hcalls, hstack⟩

end StackMachine.Machine
