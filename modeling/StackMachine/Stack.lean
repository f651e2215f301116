/-!
# Stacks of known height

A stack is a list, its top first, that carries its length along, as the machine asks for the height at
every push and every call.
-/

namespace StackMachine

structure Stack (α : Type) where
  items : List α
  height : Nat
  height_eq : height = items.length
deriving Repr, DecidableEq

namespace Stack

variable {α : Type}

/-- The height follows from the items. -/
@[ext] theorem ext {s t : Stack α} (h : s.items = t.items) : s = t := by
  obtain ⟨xs, m, hm⟩ := s
  obtain ⟨ys, n, hn⟩ := t
  subst hm hn
  cases h
  rfl

def empty : Stack α := ⟨[], 0, rfl⟩

/-- The stack with the given items, the top first. -/
def ofList (items : List α) : Stack α := ⟨items, items.length, rfl⟩

/-- The items from the bottom up. -/
def bottomUp (s : Stack α) : List α := s.items.reverse

def push (s : Stack α) (a : α) : Stack α :=
  ⟨a :: s.items, s.height + 1, by simp [s.height_eq]⟩

def top? (s : Stack α) : Option α := s.items.head?

def pop? (s : Stack α) : Option (α × Stack α) :=
  match s with
  | ⟨[], _, _⟩ => none
  | ⟨a :: rest, height, h⟩ => some (a, ⟨rest, height - 1, by simp [h]⟩)

/-- The upper `n` items, the top first. -/
def take (s : Stack α) (n : Nat) : List α := s.items.take n

/-- What is left without the upper `n` items. -/
def drop (s : Stack α) (n : Nat) : Stack α :=
  ⟨s.items.drop n, s.height - n, by simp [s.height_eq]⟩

@[simp] theorem items_empty : (empty : Stack α).items = [] := rfl

@[simp] theorem items_ofList (xs : List α) : (ofList xs).items = xs := rfl

@[simp] theorem items_push (s : Stack α) (a : α) : (s.push a).items = a :: s.items := rfl

@[simp] theorem height_push (s : Stack α) (a : α) : (s.push a).height = s.height + 1 := rfl

@[simp] theorem items_drop (s : Stack α) (n : Nat) : (s.drop n).items = s.items.drop n := rfl

@[simp] theorem pop?_empty : (empty : Stack α).pop? = none := rfl

@[simp] theorem pop?_push (s : Stack α) (a : α) : (s.push a).pop? = some (a, s) := rfl

@[simp] theorem push_inj {s t : Stack α} {a b : α} : s.push a = t.push b ↔ s = t ∧ a = b := by
  constructor
  · intro h
    obtain ⟨hab, hst⟩ := List.cons.inj (congrArg items h)
    exact ⟨ext hst, hab⟩
  · rintro ⟨rfl, rfl⟩
    rfl

@[simp] theorem push_ne_empty (s : Stack α) (a : α) : s.push a ≠ empty := fun h =>
  List.cons_ne_nil a s.items (congrArg items h)

theorem pop?_eq_some_iff {s t : Stack α} {a : α} : s.pop? = some (a, t) ↔ s = t.push a := by
  constructor
  · intro h
    match s, h with
    | ⟨b :: rest, height, hh⟩, h =>
      simp only [pop?, Option.some.injEq, Prod.mk.injEq] at h
      obtain ⟨rfl, rfl⟩ := h
      exact ext rfl
  · rintro rfl
    exact pop?_push t a

theorem pop?_eq_none_iff {s : Stack α} : s.pop? = none ↔ s = empty := by
  constructor
  · intro h
    match s, h with
    | ⟨[], height, hh⟩, _ => exact ext rfl
  · rintro rfl
    rfl

theorem exists_eq_push {s : Stack α} {a : α} {xs : List α} (h : s.items = a :: xs) :
    ∃ rest, s = push rest a ∧ rest.items = xs :=
  ⟨ofList xs, ext h, rfl⟩

theorem eq_empty_or_eq_push (s : Stack α) : s = empty ∨ ∃ rest a, s = push rest a := by
  cases h : s.pop? with
  | none => exact .inl (pop?_eq_none_iff.1 h)
  | some p => exact .inr ⟨p.2, p.1, pop?_eq_some_iff.1 h⟩

end Stack

end StackMachine
