import StackMachine.Frame

/-!
# The store of frames

Frames are kept in a `Store` and named by their place in it, so that functions, calls and slots can
share one. A frame and those around it are its chain (`chain`). An enclosing frame is always older than
the frames it encloses, which is why the walk outward ends.

A lookup by index alone (`get`) goes to the first frame of the chain that has a slot with this index; a
lookup by level and index (`getAt`) goes to one frame, and does not count the transparent ones.
`find?_eq_find?_chain` and `level?_eq_getElem?_chain` tell where both arrive in terms of the chain.
-/

namespace StackMachine

/-- Why a lookup finds no value. -/
inductive LookupError where
  /-- No frame in question has a slot with this index. -/
  | unresolved (index : Nat)
  /-- The slot was never written. -/
  | uninitialized (index : Nat)
deriving DecidableEq, Repr

def LookupError.message : LookupError → String
  | .unresolved i => s!"unresolved slot {i}"
  | .uninitialized i => s!"uninitialized slot {i}"

structure Store where
  frames : Array Frame
deriving Repr, Inhabited, DecidableEq

namespace Store

def empty : Store := ⟨#[]⟩

def size (s : Store) : Nat := s.frames.size

def frame? (s : Store) (id : FrameId) : Option Frame := s.frames[id]?

/-- Adds a frame. Its name is the size of the store before. -/
def add (s : Store) (f : Frame) : Store :=
  ⟨s.frames.push f⟩

/-- A frame without slots and with none around it. -/
def addRoot (s : Store) : Store :=
  s.add ⟨#[], none, false⟩

/-- A frame without slots inside another. -/
def addChild (s : Store) (parent : FrameId) (transparent : Bool) : Store :=
  s.add ⟨#[], some parent, transparent⟩

def modify (s : Store) (id : FrameId) (f : Frame → Frame) : Store :=
  match s with
  | ⟨frames⟩ => ⟨frames.modify id f⟩

def define (s : Store) (id : FrameId) (i : Nat) (v : Datum) : Store :=
  s.modify id (·.define i v)

def unset (s : Store) (id : FrameId) (i : Nat) : Store :=
  s.modify id (·.unset i)

def clear (s : Store) (id : FrameId) : Store :=
  s.modify id Frame.clear

theorem frame?_add (s : Store) (f : Frame) (id : FrameId) :
    (s.add f).frame? id = if id = s.size then some f else s.frame? id := by
  exact Array.getElem?_push

theorem frame?_modify (s : Store) (id j : FrameId) (g : Frame → Frame) :
    (s.modify id g).frame? j = if j = id then (s.frame? j).map g else s.frame? j := by
  simp only [modify, frame?, Array.getElem?_modify, eq_comm]

@[simp] theorem size_add (s : Store) (f : Frame) : (s.add f).size = s.size + 1 := by
  simp [add, size]

@[simp] theorem size_modify (s : Store) (id : FrameId) (g : Frame → Frame) :
    (s.modify id g).size = s.size := by
  simp [modify, size]

/-! ### Walking outward -/

/-- The frame and those around it, innermost first. -/
def chain (s : Store) (id : FrameId) : List FrameId :=
  match s.frame? id with
  | none => []
  | some f => id :: match f.outer? id with
    | none => []
    | some p => s.chain p
termination_by id

/-- The number of frames around a frame. -/
def depth (s : Store) (id : FrameId) : Nat :=
  (s.chain id).length - 1

/-- The shape of a frame. Its slots are left out: a function in one of them may lead back to the
frame. -/
def describe (s : Store) (id : FrameId) : String :=
  let slots := (s.frame? id).elim 0 (·.slots.size)
  s!"Scope \x7b depth: {s.depth id}, slots: {slots} \x7d"

/-- The first frame of the chain that has the property. -/
def find? (s : Store) (p : Frame → Bool) (id : FrameId) : Option FrameId :=
  match s.frame? id with
  | none => none
  | some f =>
    if p f then some id
    else match f.outer? id with
      | none => none
      | some q => s.find? p q
termination_by id

/-- The frame at a level, where the levels are the frames of the chain that are not transparent. -/
def level? (s : Store) (level : Nat) (id : FrameId) : Option FrameId :=
  match s.frame? id with
  | none => none
  | some f =>
    if !f.transparent && level == 0 then some id
    else match f.outer? id with
      | none => none
      | some q => s.level? (if f.transparent then level else level - 1) q
termination_by id

theorem find?_eq_find?_chain (s : Store) (p : Frame → Bool) (id : FrameId) :
    s.find? p id = (s.chain id).find? fun q => (s.frame? q).any p := by
  fun_induction find? s p id with
  | case1 id h => rw [chain, h]; rfl
  | case2 id f h hp => rw [chain, h]; simp [h, hp]
  | case3 id f h hp ho => rw [chain, h]; simp [h, hp, ho]
  | case4 id f h hp q ho ih => rw [chain, h]; simp [h, hp, ho, ih]

theorem level?_eq_getElem?_chain (s : Store) (level : Nat) (id : FrameId) :
    s.level? level id =
      ((s.chain id).filter fun q => (s.frame? q).any (!·.transparent))[level]? := by
  fun_induction level? s level id with
  | case1 level id h => rw [chain, h]; rfl
  | case2 level id f h hl =>
    simp only [Bool.and_eq_true, Bool.not_eq_true', beq_iff_eq] at hl
    rw [chain, h]
    simp [h, hl.1, hl.2]
  | case3 level id f h hl ho =>
    rw [chain, h]
    cases ht : f.transparent <;> cases level <;> simp_all
  | case4 level id f h hl q ho ih =>
    rw [chain, h]
    cases ht : f.transparent <;> cases level <;> simp_all

/-! ### Lookup and assignment -/

/-- The content of a slot of one frame. -/
def slot (s : Store) (id : FrameId) (i : Nat) : Except LookupError Datum :=
  match (s.frame? id).bind (·.slots[i]?) with
  | none => .error (.unresolved i)
  | some none => .error (.uninitialized i)
  | some (some v) => .ok v

/-- The first frame of the chain with a slot of this index answers, even if the slot was never
written. -/
def get (s : Store) (id : FrameId) (i : Nat) : Except LookupError Datum :=
  match s.find? (·.covers i) id with
  | none => .error (.unresolved i)
  | some owner => s.slot owner i

def getAt (s : Store) (id : FrameId) (level i : Nat) : Except LookupError Datum :=
  match s.level? level id with
  | none => .error (.unresolved i)
  | some owner => s.slot owner i

/-- The frame that an assignment writes: the first one of the chain that has the slot, or else the
first one that is not transparent. -/
def owner (s : Store) (id : FrameId) (i : Nat) : FrameId :=
  ((s.find? (·.covers i) id).orElse fun _ => s.find? (!·.transparent) id).getD id

def set (s : Store) (id : FrameId) (i : Nat) (v : Datum) : Store :=
  s.define (s.owner id i) i v

end Store

end StackMachine
