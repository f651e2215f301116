import StackMachine.Program.Builder
import StackMachine.Proofs.Machine.Parallel

/-!
# The base of the stack

A computation does not observe the data that lie on the stack below its own. Put on top of a base, and with
as much more room as the base takes up, it does the same and leaves the base as it was (`base_unobserved`).
Only a fault can tell that there is a base: where the stack was empty without it, it no longer is.
-/

namespace StackMachine

def Stack.onto {α : Type} (s base : Stack α) : Stack α :=
  ⟨s.items ++ base.items, s.height + base.height, by simp [s.height_eq, base.height_eq]⟩

namespace Stack

variable {α : Type} {s base : Stack α} {a : α} {n : Nat}

theorem bottomUp_onto : (s.onto base).bottomUp = base.bottomUp ++ s.bottomUp := List.reverse_append

theorem onto_push : (s.push a).onto base = (s.onto base).push a := ext rfl

theorem top?_onto (h : s.top? = some a) : (s.onto base).top? = some a := by
  show (s.items ++ base.items).head? = some a
  rw [List.head?_append, show s.items.head? = some a from h]
  rfl

theorem take_onto (h : n < s.height) : (s.onto base).take n = s.take n := by
  have hn : n ≤ s.items.length := s.height_eq ▸ Nat.le_of_lt h
  exact List.take_append_of_le_length hn

theorem drop_onto (h : n < s.height) : (s.onto base).drop n = (s.drop n).onto base := by
  have hn : n ≤ s.items.length := s.height_eq ▸ Nat.le_of_lt h
  exact ext (List.drop_append_of_le_length hn)

end Stack

def State.onto (s : State) (base : Stack Datum) : State := { s with stack := s.stack.onto base }

namespace Machine

/-- The machine with room for `k` more data on its stack. -/
def deepened (m : Machine) (k : Nat) : Machine :=
  { m with limits := { m.limits with stackCapacity := m.limits.stackCapacity + k } }

variable {m : Machine} {base : Stack Datum} {s t : State} {α : Type}

def Based (base : Stack Datum) (s t : State) : Prop := t = s.onto base

theorem based_of_ok {x y : Action α}
    (h : ∀ s a u, x s = .ok a u → y (s.onto base) = .ok a (u.onto base)) :
    Lockstep (fun _ => True) (Based base) (Based base) Eq x y := by
  rintro s _ rfl
  cases hx : x s with
  | ok a u =>
    rw [h s a u hx]
    exact .ok rfl rfl
  | error e u => exact .excused trivial

theorem based_push (d : Datum) : Lockstep (fun _ => True) (Based base) (Based base) Eq (m.push d)
    ((m.deepened base.height).push d) := by
  refine based_of_ok fun s _ u hx => ?_
  unfold push at hx ⊢
  split at hx
  · next hlt =>
    cases hx
    have hroom : (s.onto base).stack.height < (m.deepened base.height).limits.stackCapacity :=
      Nat.add_lt_add_right hlt base.height
    rw [if_pos hroom]
    simp only [State.onto, Stack.onto_push]
  · cases hx

theorem based_operand : Lockstep (fun _ => True) (Based base) (Based base) Eq m.operand
    (m.deepened base.height).operand := by
  refine based_of_ok fun s d u hx => ?_
  obtain ⟨hd, rfl⟩ := operand_eq_ok.1 hx
  exact operand_eq_ok.2 ⟨hd, rfl⟩

theorem based_respects (m : Machine) (base : Stack Datum) :
    Respects (fun _ => True) m (m.deepened base.height) (Based base) where
  scope := by
    rintro s _ rfl
    rfl
  store := by
    rintro s _ rfl
    rfl
  push := based_push
  pop := by
    refine based_of_ok fun s d u hx => ?_
    obtain ⟨rest, hs, rfl⟩ := pop_eq_ok.1 hx
    refine pop_eq_ok.2 ⟨rest.onto base, ?_, rfl⟩
    rw [State.onto, hs, Stack.onto_push]
  top := by
    refine based_of_ok fun s d u hx => ?_
    unfold top at hx ⊢
    cases hd : s.stack.top? with
    | none =>
      rw [hd] at hx
      cases hx
    | some e =>
      rw [hd] at hx
      cases hx
      rw [show (s.onto base).stack.top? = some d from Stack.top?_onto hd]
  popArguments n := by
    refine based_of_ok fun s ds u hx => ?_
    obtain ⟨hlt, rfl, rfl⟩ := popArguments_eq_ok.1 hx
    have hlt' : n < (s.onto base).stack.height := Nat.lt_add_right base.height hlt
    refine popArguments_eq_ok.2 ⟨hlt', (Stack.take_onto hlt).symm, ?_⟩
    simp only [State.onto, Stack.drop_onto hlt]
  operand := based_operand.mono (fun _ _ hst => hst) fun _ _ _ => trivial
  index := by
    refine based_operand.bind_eq fun d => ?_
    refine (Lockstep.asInteger d).bind_eq fun n => ?_
    exact .ite Iff.rfl (fun _ => .pure rfl) fun _ => .throw _
  slotIndex n := by
    refine .ite Iff.rfl (fun hn => .pure ⟨rfl, ?_⟩) fun _ => .throw _
    omega
  header a := by
    refine based_of_ok fun s sig u hx => ?_
    obtain ⟨hsig, rfl⟩ := header_eq_ok.1 hx
    exact header_eq_ok.2 ⟨hsig, rfl⟩
  jump a := .modify fun s t hst => by rw [hst]; rfl
  assign i v s t _ hst := by
    rw [hst]
    rfl
  unload i s t hst := by
    rw [hst]
    rfl
  halt s t hst := by
    rw [hst]
    rfl

theorem based_saveCaller : Lockstep (fun _ => True) (Based base) (Based base) Eq m.saveCaller
    (m.deepened base.height).saveCaller := by
  refine based_of_ok fun s _ u hx => ?_
  unfold saveCaller at hx ⊢
  split at hx
  · next hlt =>
    cases hx
    have hlt' : (s.onto base).callDepth < (m.deepened base.height).limits.maxCallDepth := hlt
    rw [if_pos hlt']
    rfl
  · cases hx

theorem based_resume : Lockstep (fun _ => True) (Based base) (Based base) Eq resume resume := by
  refine based_of_ok fun s f u hx => ?_
  unfold resume at hx ⊢
  cases hp : s.calls.pop? with
  | none =>
    rw [hp] at hx
    cases hx
  | some p =>
    rw [hp] at hx
    cases hx
    rw [show (s.onto base).calls.pop? = some p from hp]
    rfl

theorem parallel_deepened (m : Machine) (base : Stack Datum) :
    Parallel (fun _ => True) m (m.deepened base.height) (Based base) where
  toRespects := based_respects m base
  fetch _ := .inl rfl
  ip := by
    rintro s _ rfl
    rfl
  halted := by
    rintro s _ rfl
    rfl
  callDepth := by
    rintro s _ rfl
    rfl
  literal := based_operand
  announced op s t h := by
    rw [h]
    rfl
  entered c s t h := by
    rw [h]
    rfl
  saveCaller := based_saveCaller
  resume := based_resume

/-- If `n` steps meet no fault, then on top of a base, with room for it, they have the same statuses and
lead to the same state, but for the base that is still there. -/
theorem base_unobserved (m : Machine) (s : State) (base : Stack Datum) (n : Nat)
    (h : ∀ k < n, ∀ f, (m.step (m.after k s)).status ≠ .faulted f) :
    (∀ k < n, ((m.deepened base.height).step ((m.deepened base.height).after k (s.onto base))).status =
      (m.step (m.after k s)).status) ∧
    (m.deepened base.height).after n (s.onto base) = (m.after n s).onto base ∧
    ((m.deepened base.height).after n (s.onto base)).stack.bottomUp =
      base.bottomUp ++ (m.after n s).stack.bottomUp := by
  obtain ⟨hstatus, hstates⟩ := (parallel_deepened m base).after (s := s) (t := s.onto base) rfl
    (n := n) fun k hk f hf _ => h k hk f hf
  have hafter : (m.deepened base.height).after n (s.onto base) = (m.after n s).onto base :=
    hstates n (Nat.le_refl n)
  refine ⟨hstatus, hafter, ?_⟩
  rw [hafter]
  exact Stack.bottomUp_onto

/-- The function at `2` adds one to its argument. With the call the stack is full. -/
def successor : Machine where
  program := ((((((((((Builder.empty.opWith .jump 13).functionHeader 1 false).opWith .accessLocal 0).constant
    (.integer 1)).op (.binary .add)).op .ret).opWith .function 2).constant (.integer 5)).opWith
    (.call .plain) 1).op .halt).build
  limits := ⟨2, 1, 0⟩

theorem base_unobserved_successor :
    (∀ k < 9, ∀ f, (successor.step (successor.after k .initial)).status ≠ .faulted f) ∧
      ((successor.deepened 2).step ((successor.deepened 2).after 8
        (State.initial.onto (.ofList [.null, .integer 7])))).status = .halted ∧
      ((successor.deepened 2).after 9 (State.initial.onto (.ofList [.null, .integer 7]))).stack.bottomUp =
        [.integer 7, .null] ++ [.integer 6] := by
  have hstatus : ∀ k < 9, (successor.step (successor.after k .initial)).status = .running ∨
      (successor.step (successor.after k .initial)).status = .halted := by decide +kernel
  have h : ∀ k < 9, ∀ f, (successor.step (successor.after k .initial)).status ≠ .faulted f := by
    intro k hk f hf
    rcases hstatus k hk with hrunning | hhalted
    · rw [hrunning] at hf
      cases hf
    · rw [hhalted] at hf
      cases hf
  have hend : (successor.step (successor.after 8 .initial)).status = .halted := by decide +kernel
  have hstack : (successor.after 9 .initial).stack.bottomUp = [.integer 6] := by decide +kernel
  obtain ⟨hsame, -, hbottomUp⟩ := base_unobserved successor .initial (.ofList [.null, .integer 7]) 9 h
  exact ⟨h, (hsame 8 (by decide)).trans hend, hstack ▸ hbottomUp⟩

end Machine

end StackMachine
