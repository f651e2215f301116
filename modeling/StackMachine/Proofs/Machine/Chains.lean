import StackMachine.Proofs.Arithmetic.Operands
import StackMachine.Proofs.Machine.Calls
import StackMachine.Program.Builder

/-!
# Chains of comparisons

The code of a chain such as `a < b < c` loads a truth value and the first operand, and then each further operand
with a link behind it; at the end it discards the last operand (`ChainAt`). What is left is whether the truth
value it began with was true and all links hold. If a link finds an operand that is no number then the chain
ends there in a fault, whatever came out of the links before it. The main result is `chain_decides`.

`run_links` is the induction on the links: below the operand that is kept for the next link there is always the
outcome so far.
-/

namespace StackMachine

/-- The same state at another address and with another operand stack. -/
def State.moved (s : State) (ip : Nat) (stack : Stack Datum) : State := { s with ip := ip, stack := stack }

namespace Machine

variable {m : Machine} {s : State} {op : Opcode} {a b e : Nat} {d z : Datum} {st stack : Stack Datum}

theorem announced_moved (h : op ≠ .emptyArray) : announced op (s.moved a stack) = s.moved (a + 1) stack := by
  simp [announced, State.moved, h]

theorem run_moved (hs : s.halted = false) (hop : m.program.opcodeAt? a = some op) (hne : op ≠ .emptyArray)
    (h : m.execute op (s.moved (a + 1) stack) = .ok none (s.moved b st)) :
    m.run 1 (s.moved a stack) = (s.moved b st, .running) :=
  run_one_of_ok hs hop ((announced_moved hne).symm ▸ h) hs

theorem run_moved_error {trap : Trap} {t : State} (hs : s.halted = false)
    (hop : m.program.opcodeAt? a = some op) (hne : op ≠ .emptyArray)
    (h : m.execute op (s.moved (a + 1) stack) = .error trap t) :
    ∃ i, m.run 1 (s.moved a stack) = (t, .faulted ⟨trap, a, some i⟩) :=
  run_one_of_error (s := s.moved a stack) hs hop ((announced_moved hne).symm ▸ h)

/-! ### Loading and discarding -/

/-- The code from `a` to `b` puts `d` on the stack wherever there is room, and does nothing else. It may rely on
what else is in the state `s`. -/
def Loads (m : Machine) (s : State) (a : Nat) (d : Datum) (b : Nat) : Prop :=
  ∀ stack : Stack Datum, stack.height < m.limits.stackCapacity →
    ∃ n, m.run n (s.moved a stack) = (s.moved b (stack.push d), .running)

theorem loads_constant (hs : s.halted = false) (hop : m.program.opcodeAt? a = some .constant)
    (hd : m.program.get? (a + 1) = some d) : Loads m s a d (a + 2) := by
  intro stack hroom
  refine ⟨1, run_moved hs hop (by simp) ?_⟩
  simp [execute, Bind.bind, EStateM.bind, operand, push, State.moved, hd, hroom, pure, EStateM.pure]

theorem run_discard (hs : s.halted = false) (hop : m.program.opcodeAt? a = some .discard) :
    m.run 1 (s.moved a (st.push d)) = (s.moved (a + 1) st, .running) := by
  refine run_moved hs hop (by simp) ?_
  simp [execute, Bind.bind, EStateM.bind, pop, State.moved, pure, EStateM.pure]

/-! ### One link -/

/-- A link of a chain with both of its operands, and the address of its instruction. -/
structure Link where
  left : Datum
  comparison : Comparison
  right : Datum
  address : Nat

namespace Link

def Numeric (l : Link) : Prop := Numbers l.left l.right

/-- The comparison holds, as it would outside of a chain. -/
def Holds (l : Link) : Prop :=
  l.comparison.apply (.compare l.comparison) l.left l.right = .ok true

instance : DecidablePred Numeric := fun _ => inferInstanceAs (Decidable (_ ∧ _))

instance : DecidablePred Holds := fun _ => inferInstanceAs (Decidable (_ = _))

variable {l : Link}

theorem Numeric.apply_chain (h : l.Numeric) :
    l.comparison.apply (.chain l.comparison) l.left l.right = .ok (decide l.Holds) := by
  have happly := Comparison.apply_of_numbers h l.comparison
  have hholds : decide l.Holds = l.comparison.holds (ordering? l.left l.right) := by
    simp only [Holds, happly, Except.ok.injEq, Bool.decide_eq_true]
  rw [happly, hholds]

end Link

variable {l : Link} {links done rest : List Link}

theorem run_link (before : Datum) (hs : s.halted = false)
    (hop : m.program.opcodeAt? l.address = some (.chain l.comparison)) (hl : l.Numeric)
    (hroom : st.height + 2 ≤ m.limits.stackCapacity) :
    m.run 1 (s.moved l.address (((st.push before).push l.left).push l.right)) =
      (s.moved (l.address + 1) ((st.push (.ofBool (before.truthy && decide l.Holds))).push l.right),
        .running) := by
  have hfirst : st.height < m.limits.stackCapacity := by omega
  have hsecond : st.height + 1 < m.limits.stackCapacity := by omega
  refine run_moved hs hop (by simp) ?_
  simp [execute, chainLink, Bind.bind, EStateM.bind, pop, push, computed, State.moved, hl.apply_chain, hfirst,
    hsecond, pure, EStateM.pure]

theorem run_link_error (st : Stack Datum) (before : Datum) (hs : s.halted = false)
    (hop : m.program.opcodeAt? l.address = some (.chain l.comparison)) (hl : ¬l.Numeric) :
    ∃ i, m.run 1 (s.moved l.address (((st.push before).push l.left).push l.right)) =
      (s.moved (l.address + 1) (st.push before),
        .faulted ⟨.binaryOperands (.chain l.comparison) l.left.tag l.right.tag, l.address, some i⟩) := by
  have herror := Comparison.apply_of_not_numbers hl l.comparison (.chain l.comparison)
  refine run_moved_error hs hop (by simp) ?_
  simp [execute, chainLink, Bind.bind, EStateM.bind, pop, computed, State.moved, herror, throw, throwThe,
    MonadExceptOf.throw, EStateM.throw]

/-! ### All links -/

/-- From `a` to `e` there is the code of the links, for a chain whose last operand so far is `d`. -/
def LinksAt (m : Machine) (s : State) : Nat → Datum → List Link → Nat → Prop
  | a, _, [], e => a = e
  | a, d, l :: rest, e =>
    l.left = d ∧ Loads m s a l.right l.address ∧
      m.program.opcodeAt? l.address = some (.chain l.comparison) ∧
      LinksAt m s (l.address + 1) l.right rest e

def lastOperand (d : Datum) (links : List Link) : Datum := links.foldl (fun _ l => l.right) d

/-- What stands below the last operand after some links. -/
def outcomeOf (before : Datum) (links : List Link) : Datum :=
  links.foldl (fun before l => .ofBool (before.truthy && decide l.Holds)) before

theorem linksAt_append : LinksAt m s a d (done ++ rest) e ↔
    ∃ b, LinksAt m s a d done b ∧ LinksAt m s b (lastOperand d done) rest e := by
  induction done generalizing a d with
  | nil => simp [LinksAt, lastOperand]
  | cons l done ih =>
    simp only [List.cons_append, LinksAt, ih, lastOperand, List.foldl_cons]
    constructor
    · rintro ⟨hleft, hloads, hop, b, hdone, hrest⟩
      exact ⟨b, ⟨hleft, hloads, hop, hdone⟩, hrest⟩
    · rintro ⟨b, ⟨hleft, hloads, hop, hdone⟩, hrest⟩
      exact ⟨hleft, hloads, hop, b, hdone, hrest⟩

theorem run_links (before : Datum) (hs : s.halted = false)
    (hroom : st.height + 3 ≤ m.limits.stackCapacity) (h : LinksAt m s a d links e)
    (hl : ∀ l ∈ links, l.Numeric) :
    ∃ n, m.run n (s.moved a ((st.push before).push d)) =
      (s.moved e ((st.push (outcomeOf before links)).push (lastOperand d links)), .running) := by
  induction links generalizing a d before with
  | nil =>
    obtain rfl : a = e := h
    exact ⟨0, rfl⟩
  | cons l links ih =>
    obtain ⟨rfl, hloads, hop, hrest⟩ := h
    obtain ⟨k, hload⟩ := hloads ((st.push before).push l.left) (by show st.height + 1 + 1 < _; omega)
    have hlink := run_link before hs hop (hl l List.mem_cons_self) (by omega : st.height + 2 ≤ _)
    obtain ⟨n, hn⟩ := ih _ hrest fun l hmem => hl l (List.mem_cons_of_mem _ hmem)
    refine ⟨k + (1 + n), ?_⟩
    rw [run_add hload, run_add hlink, hn]
    rfl

/-! ### The whole chain -/

def verdict (z : Datum) (links : List Link) : Datum :=
  .integer (if z.truthy = true ∧ ∀ l ∈ links, l.Holds then 1 else 0)

theorem truthy_ofBool (b : Bool) : (Datum.ofBool b).truthy = b := by
  cases b <;> rfl

theorem truthy_outcomeOf (z : Datum) (links : List Link) :
    (outcomeOf z links).truthy = (z.truthy && decide (∀ l ∈ links, l.Holds)) := by
  induction links generalizing z with
  | nil => simp [outcomeOf]
  | cons l links ih =>
    have hcons : outcomeOf z (l :: links) = outcomeOf (.ofBool (z.truthy && decide l.Holds)) links := rfl
    rw [hcons, ih, truthy_ofBool]
    simp [Bool.and_assoc]

theorem outcomeOf_concat (z : Datum) (done : List Link) (l : Link) :
    outcomeOf z (done ++ [l]) = verdict z (done ++ [l]) := by
  have hconcat : outcomeOf z (done ++ [l]) = .ofBool ((outcomeOf z done).truthy && decide l.Holds) := by
    simp [outcomeOf]
  rw [hconcat, truthy_outcomeOf, verdict, Datum.ofBool]
  simp [or_imp, forall_and, and_assoc]

theorem lastOperand_concat (d : Datum) (done : List Link) (l : Link) : lastOperand d (done ++ [l]) = l.right := by
  simp [lastOperand]

/-- At the instruction pointer there is the code of a chain that begins with the truth value `z`. Its last
instruction, at `e`, discards the last operand. -/
def ChainAt (m : Machine) (s : State) (z : Datum) (links : List Link) (e : Nat) : Prop :=
  ∃ a b x, Loads m s s.ip z a ∧ Loads m s a x b ∧ LinksAt m s b x links e ∧
    m.program.opcodeAt? e = some .discard

variable {x : Datum}

theorem run_chain (hs : s.halted = false) (hroom : s.stack.height + 3 ≤ m.limits.stackCapacity)
    (hz : Loads m s s.ip z a) (hx : Loads m s a x b) (h : LinksAt m s b x links e)
    (hl : ∀ l ∈ links, l.Numeric) :
    ∃ n, m.run n s =
      (s.moved e ((s.stack.push (outcomeOf z links)).push (lastOperand x links)), .running) := by
  obtain ⟨i, hi⟩ := hz s.stack (by omega)
  obtain ⟨j, hj⟩ := hx (s.stack.push z) (by show s.stack.height + 1 < _; omega)
  obtain ⟨k, hk⟩ := run_links z hs hroom h hl
  have hstart : s.moved s.ip s.stack = s := rfl
  rw [hstart] at hi
  refine ⟨i + (j + k), ?_⟩
  rw [run_add hi, run_add hj, hk]

theorem run_chain_error (hs : s.halted = false) (hroom : s.stack.height + 3 ≤ m.limits.stackCapacity)
    (hz : Loads m s s.ip z a) (hx : Loads m s a x b) (h : LinksAt m s b x (done ++ l :: rest) e)
    (hdone : ∀ k ∈ done, k.Numeric) (hl : ¬l.Numeric) :
    ∃ n t i, m.run n s = (t,
      .faulted ⟨.binaryOperands (.chain l.comparison) l.left.tag l.right.tag, l.address, some i⟩) := by
  obtain ⟨c, hcode, hleft, hloads, hop, -⟩ := linksAt_append.1 h
  obtain ⟨n, hn⟩ := run_chain hs hroom hz hx hcode hdone
  obtain ⟨k, hk⟩ := hloads ((s.stack.push (outcomeOf z done)).push l.left)
    (by show s.stack.height + 1 + 1 < _; omega)
  obtain ⟨i, hi⟩ := run_link_error s.stack (outcomeOf z done) hs hop hl
  rw [← hleft] at hn
  exact ⟨n + (k + 1), _, i, (run_add hn).trans ((run_add hk).trans hi)⟩

/-- With numbers as operands a chain leaves whether `z` is true and all links hold, and after each link this is
known of the links so far. Otherwise it ends at the first link that has an operand which is no number. -/
theorem chain_decides (h : ChainAt m s z links e) (hs : s.halted = false) (hne : links ≠ [])
    (hroom : s.stack.height + 3 ≤ m.limits.stackCapacity) :
    ((∀ l ∈ links, l.Numeric) →
      ∃ n, m.run n s = (s.moved (e + 1) (s.stack.push (verdict z links)), .running)) ∧
    (∀ (done : List Link) (l : Link) (rest : List Link),
      links = done ++ l :: rest → (∀ k ∈ done, k.Numeric) → l.Numeric →
      ∃ n, m.run n s =
        (s.moved (l.address + 1) ((s.stack.push (verdict z (done ++ [l]))).push l.right), .running)) ∧
    ((∃ l ∈ links, ¬l.Numeric) →
      ∃ (done : List Link) (l : Link) (rest : List Link),
        links = done ++ l :: rest ∧ (∀ k ∈ done, k.Numeric) ∧ ¬l.Numeric ∧ ∃ n t i, m.run n s = (t,
          .faulted ⟨.binaryOperands (.chain l.comparison) l.left.tag l.right.tag, l.address, some i⟩)) := by
  obtain ⟨a, b, x, hz, hx, hlinks, hdiscard⟩ := h
  refine ⟨?_, ?_, ?_⟩
  · intro hl
    obtain ⟨n, hn⟩ := run_chain hs hroom hz hx hlinks hl
    obtain ⟨done, l, rfl⟩ := (List.eq_nil_or_concat links).resolve_left hne
    refine ⟨n + 1, ?_⟩
    rw [run_add hn, run_discard hs hdiscard, List.concat_eq_append, outcomeOf_concat]
  · rintro done l rest rfl hdone hl
    obtain ⟨c, hcode, hleft, hloads, hop, -⟩ := linksAt_append.1 hlinks
    have hupto : LinksAt m s b x (done ++ [l]) (l.address + 1) :=
      linksAt_append.2 ⟨c, hcode, hleft, hloads, hop, rfl⟩
    have hnumeric : ∀ k ∈ done ++ [l], k.Numeric := by
      intro k hk
      rcases List.mem_append.1 hk with hk | hk
      · exact hdone k hk
      · rwa [List.mem_singleton.1 hk]
    obtain ⟨n, hn⟩ := run_chain hs hroom hz hx hupto hnumeric
    rw [outcomeOf_concat, lastOperand_concat] at hn
    exact ⟨n, hn⟩
  · rintro ⟨l, hmem, hl⟩
    have hsome : (links.find? fun k => decide ¬k.Numeric).isSome = true :=
      List.find?_isSome.2 ⟨l, hmem, decide_eq_true hl⟩
    obtain ⟨first, hfirst⟩ := Option.isSome_iff_exists.1 hsome
    obtain ⟨hnot, done, rest, rfl, hbefore⟩ := List.find?_eq_some_iff_append.1 hfirst
    have hnot' : ¬first.Numeric := of_decide_eq_true hnot
    have hdone : ∀ k ∈ done, k.Numeric := fun k hk => by simpa using hbefore k hk
    exact ⟨done, first, rest, rfl, hdone, hnot', run_chain_error hs hroom hz hx hlinks hdone hnot'⟩

/-- The chain `3 < 2 < 2.5 > none` on a stack that holds a datum and has three places left. -/
def endsInNull : Machine where
  program := ((((((((((Builder.empty.constant (.integer 9)).constant (.integer 1)).constant (.integer 3)).constant
    (.integer 2)).op (.chain .less)).constant (.real 2.5)).op (.chain .less)).constant .null).op
    (.chain .more)).op .discard).build
  limits := ⟨4, 0, 0⟩

/-- The first link does not hold, the second one does, and the third one is still a fault. -/
theorem chain_decides_endsInNull :
    ∃ s links, s = endsInNull.after 1 .initial ∧ s.halted = false ∧ links ≠ [] ∧
      s.stack.height + 3 ≤ endsInNull.limits.stackCapacity ∧ ChainAt endsInNull s (.integer 1) links 15 ∧
      (∃ n, endsInNull.run n s =
        (s.moved 12 ((s.stack.push (.integer 0)).push (.real 2.5)), .running)) ∧
      ∃ n t i, endsInNull.run n s = (t, .faulted ⟨.binaryOperands (.chain .more) .real .null, 14, some i⟩) := by
  have hs : (endsInNull.after 1 .initial).halted = false := by decide +kernel
  have hip : (endsInNull.after 1 .initial).ip = 2 := by decide +kernel
  have hroom : (endsInNull.after 1 .initial).stack.height + 3 ≤ endsInNull.limits.stackCapacity := by
    decide +kernel
  generalize hstate : endsInNull.after 1 .initial = s at hs hip hroom
  have hload : ∀ a d, endsInNull.program.opcodeAt? a = some .constant →
      endsInNull.program.get? (a + 1) = some d → Loads endsInNull s a d (a + 2) :=
    fun _ _ => loads_constant hs
  have hcode : ChainAt endsInNull s (.integer 1)
      [⟨.integer 3, .less, .integer 2, 8⟩, ⟨.integer 2, .less, .real 2.5, 11⟩,
        ⟨.real 2.5, .more, .null, 14⟩] 15 := by
    refine ⟨4, 6, .integer 3, ?_, ?_, ?_, ?_⟩
    · rw [hip]
      exact hload 2 _ (by decide +kernel) (by decide +kernel)
    · exact hload 4 _ (by decide +kernel) (by decide +kernel)
    · refine ⟨rfl, ?_, ?_, rfl, ?_, ?_, rfl, ?_, ?_, rfl⟩
      · exact hload 6 _ (by decide +kernel) (by decide +kernel)
      · decide +kernel
      · exact hload 9 _ (by decide +kernel) (by decide +kernel)
      · decide +kernel
      · exact hload 12 _ (by decide +kernel) (by decide +kernel)
      · decide +kernel
    · decide +kernel
  obtain ⟨-, hbetween, hfault⟩ := chain_decides hcode hs (List.cons_ne_nil _ _) hroom
  have hnumeric : Link.Numeric ⟨.integer 3, .less, .integer 2, 8⟩ ∧
      Link.Numeric ⟨.integer 2, .less, .real 2.5, 11⟩ :=
    ⟨⟨rfl, rfl⟩, ⟨rfl, rfl⟩⟩
  obtain ⟨done, l, rest, hsplit, -, hl, n, t, i, hend⟩ := hfault ⟨_, .tail _ (.tail _ (.head _)), by decide⟩
  have hlast : l = ⟨.real 2.5, .more, .null, 14⟩ := by
    have hmem : l ∈ done ++ l :: rest := by simp
    rw [← hsplit] at hmem
    simp only [List.mem_cons, List.not_mem_nil, or_false] at hmem
    rcases hmem with rfl | rfl | rfl
    · exact absurd hnumeric.1 hl
    · exact absurd hnumeric.2 hl
    · rfl
  subst hlast
  have hverdict : verdict (.integer 1)
      ([⟨.integer 3, .less, .integer 2, 8⟩] ++ [⟨.integer 2, .less, .real 2.5, 11⟩]) = .integer 0 := by
    decide +kernel
  obtain ⟨k, hk⟩ := hbetween [_] _ [_] rfl (by simpa using hnumeric.1) hnumeric.2
  rw [hverdict] at hk
  exact ⟨s, _, rfl, hs, List.cons_ne_nil _ _, hroom, hcode, ⟨k, hk⟩, n, t, i, hend⟩

end Machine

end StackMachine
