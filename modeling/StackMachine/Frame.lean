import StackMachine.Datum

/-!
# Frames

A frame is a row of slots, some of them not written yet, inside an enclosing frame or none. A
transparent frame is not a level of its own: it is where a call without arguments runs, and variables
are counted from the frame around it.
-/

namespace StackMachine

structure Frame where
  slots : Array (Option Datum)
  parent : Option FrameId
  transparent : Bool
deriving Repr, Inhabited, DecidableEq

namespace Frame

/-- The enclosing frame of a frame named `id`, if it is an older one. -/
def outer? (f : Frame) (id : FrameId) : Option (Fin id) :=
  f.parent.bind fun p => if h : p < id then some ⟨p, h⟩ else none

/-- Whether the frame has a slot with this index, written or not. -/
def covers (f : Frame) (i : Nat) : Bool :=
  i < f.slots.size

/-- Writes a slot, after filling up the row to it with unwritten ones. -/
def define (f : Frame) (i : Nat) (v : Datum) : Frame :=
  { f with slots := (f.slots ++ Array.replicate (i + 1 - f.slots.size) none).setIfInBounds i (some v) }

/-- Makes a slot unwritten. The row keeps its length. -/
def unset (f : Frame) (i : Nat) : Frame :=
  { f with slots := f.slots.setIfInBounds i none }

def clear (f : Frame) : Frame :=
  { f with slots := #[] }

theorem size_slots_define (f : Frame) (i : Nat) (v : Datum) :
    (f.define i v).slots.size = max f.slots.size (i + 1) := by
  simp only [define, Array.size_setIfInBounds, Array.size_append, Array.size_replicate]
  omega

theorem getElem?_slots_define (f : Frame) (i j : Nat) (v : Datum) :
    (f.define i v).slots[j]? =
      if j = i then some (some v)
      else if j < f.slots.size then f.slots[j]?
      else if j < i then some none
      else none := by
  simp only [define, Array.getElem?_setIfInBounds, Array.size_append, Array.size_replicate,
    Array.getElem?_append, Array.getElem?_replicate]
  by_cases hji : j = i
  · subst hji
    rw [if_pos rfl, if_pos rfl, if_pos (by omega)]
  · rw [if_neg (Ne.symm hji), if_neg hji]
    by_cases hj : j < f.slots.size
    · rw [if_pos hj, if_pos hj]
    · rw [if_neg hj, if_neg hj]
      by_cases hlt : j < i
      · rw [if_pos hlt, if_pos (by omega)]
      · rw [if_neg hlt, if_neg (by omega)]

theorem size_slots_unset (f : Frame) (i : Nat) : (f.unset i).slots.size = f.slots.size := by
  simp [unset]

theorem getElem?_slots_unset (f : Frame) (i j : Nat) :
    (f.unset i).slots[j]? = if j = i ∧ j < f.slots.size then some none else f.slots[j]? := by
  simp only [unset, Array.getElem?_setIfInBounds]
  by_cases hji : j = i
  · subst hji
    by_cases hj : j < f.slots.size <;> simp [hj]
  · simp [hji, Ne.symm hji]

end Frame

end StackMachine
