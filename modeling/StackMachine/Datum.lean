import StackMachine.Tag
import StackMachine.Instruction
import StackMachine.Numeral.Fixed

/-!
# Data

What stands on the operand stack, in the slots of a frame and in a program. Equality of data is by
structure, of reals by bit pattern with one pattern for all that is not a number, and of functions and
scopes by the frame they name. `beq_iff_eq` identifies it with equality proper.
-/

namespace StackMachine

/-- The place of a frame in its store. -/
abbrev FrameId := Nat

/-- A function: the address of its header, and the frame in which it was made. -/
structure Closure where
  address : Nat
  scope : FrameId
deriving DecidableEq, Repr

inductive Datum where
  | null
  | integer (n : Int64)
  | real (x : Float)
  | instruction (i : Instruction)
  | function (f : Closure)
  | list (items : List Datum)
  | scope (frame : FrameId)
deriving Repr, Inhabited

/-- A datum of one kind stood where one of another was needed. -/
structure TypeMismatch where
  expected : Tag
  found : Tag
deriving DecidableEq, Repr

def TypeMismatch.message (e : TypeMismatch) : String :=
  s!"type mismatch: expected {e.expected.name}, found {e.found.name}"

namespace Datum

def tag : Datum → Tag
  | .null => .null
  | .integer _ => .integer
  | .real _ => .real
  | .instruction _ => .instruction
  | .function _ => .function
  | .list _ => .list
  | .scope _ => .scope

def ofBool (b : Bool) : Datum :=
  .integer (if b then 1 else 0)

/-- Null, zero of either kind and sign, and the empty list are false; all else is true. -/
def truthy : Datum → Bool
  | .null => false
  | .integer n => n != 0
  | .real x => x != 0
  | .list items => !items.isEmpty
  | .instruction _ | .function _ | .scope _ => true

/-! ### Equality -/

mutual

def beq : Datum → Datum → Bool
  | .null, .null => true
  | .integer m, .integer n => m == n
  | .real x, .real y => x.toBits == y.toBits
  | .instruction i, .instruction j => i == j
  | .function f, .function g => f == g
  | .list xs, .list ys => beqItems xs ys
  | .scope a, .scope b => a == b
  | _, _ => false

def beqItems : List Datum → List Datum → Bool
  | [], [] => true
  | x :: xs, y :: ys => beq x y && beqItems xs ys
  | _, _ => false

end

instance : BEq Datum := ⟨beq⟩

theorem toBits_inj {x y : Float} : x.toBits = y.toBits ↔ x = y := by
  constructor
  · intro h
    obtain ⟨⟨a, ha⟩⟩ := x
    obtain ⟨⟨b, hb⟩⟩ := y
    have hab : a = b := h
    subst hab
    rfl
  · rintro rfl
    rfl

mutual

theorem beq_eq_true : ∀ {a b : Datum}, beq a b = true ↔ a = b
  | .list xs, .list ys => by rw [beq, beqItems_eq_true, list.injEq]
  | .null, b | .integer m, b | .real x, b | .instruction i, b | .function f, b | .scope s, b => by
    cases b <;> simp [beq, toBits_inj]
  | .list xs, .null | .list xs, .integer _ | .list xs, .real _ | .list xs, .instruction _
  | .list xs, .function _ | .list xs, .scope _ => by simp [beq]

theorem beqItems_eq_true : ∀ {xs ys : List Datum}, beqItems xs ys = true ↔ xs = ys
  | [], [] => by simp [beqItems]
  | [], _ :: _ => by simp [beqItems]
  | _ :: _, [] => by simp [beqItems]
  | x :: xs, y :: ys => by
    rw [beqItems, Bool.and_eq_true, beq_eq_true, beqItems_eq_true, List.cons.injEq]

end

instance : LawfulBEq Datum where
  rfl {a} := beq_eq_true.2 (Eq.refl a)
  eq_of_beq h := beq_eq_true.1 h

instance : DecidableEq Datum :=
  fun a b => decidable_of_iff (beq a b = true) beq_eq_true

/-! ### Access by kind -/

def mismatch (d : Datum) (expected : Tag) : TypeMismatch :=
  ⟨expected, d.tag⟩

def asInteger : Datum → Except TypeMismatch Int64
  | .integer n => .ok n
  | d => .error (d.mismatch .integer)

def asReal : Datum → Except TypeMismatch Float
  | .real x => .ok x
  | d => .error (d.mismatch .real)

/-- The value of a number as a real, an integer rounded to the nearest. -/
def toReal : Datum → Except TypeMismatch Float
  | .integer n => .ok (Binary64.ofInt n.toInt)
  | .real x => .ok x
  | d => .error (d.mismatch .real)

def asInstruction : Datum → Except TypeMismatch Instruction
  | .instruction i => .ok i
  | d => .error (d.mismatch .instruction)

def asFunction : Datum → Except TypeMismatch Closure
  | .function f => .ok f
  | d => .error (d.mismatch .function)

def asList : Datum → Except TypeMismatch (List Datum)
  | .list items => .ok items
  | d => .error (d.mismatch .list)

def asScope : Datum → Except TypeMismatch FrameId
  | .scope frame => .ok frame
  | d => .error (d.mismatch .scope)

/-! ### Text -/

mutual

def render : Datum → String
  | .null => "none"
  | .integer n => toString n.toInt
  | .real x => Numeral.sixPlaces x
  | .instruction i => i.render
  | .function f => s!"[function @{f.address}]"
  | .list items => "[" ++ ", ".intercalate (renderAll items) ++ "]"
  | .scope _ => "[scope]"

def renderAll : List Datum → List String
  | [] => []
  | d :: ds => render d :: renderAll ds

end

end Datum

end StackMachine
