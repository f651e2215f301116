import StackMachine.Proofs.Machine.Calls
import StackMachine.Program.Builder

/-!
# Truncated headers

A call reads the parameter count and the variadic flag of a header, at offsets 2 and 3, and nothing behind
them. So a program that ends too early for the header of its callee has the call refused (`Refuses`), unless
it is only the last datum that is missing (`Program.LacksOnlyLast`): then the call goes on as with a whole
header, to an address beyond the end of the program (`truncated_header_entered`).
-/

namespace StackMachine

namespace Program

variable {p : Program} {address : Nat}

/-- Of the header at the address the last datum is missing, and what is read of it is in order. -/
def LacksOnlyLast (p : Program) (address : Nat) : Prop :=
  p.size + 1 = address + headerSize ∧ (p.signature? address).isSome

instance : Decidable (p.LacksOnlyLast address) := inferInstanceAs (Decidable (_ ∧ _))

theorem lt_size_of_get? {d : Datum} (h : p.get? address = some d) : address < p.size :=
  (Array.getElem?_eq_some_iff.1 h).1

theorem size_of_signature? {sig : Signature} (h : p.signature? address = some sig) :
    address + variadicOffset < p.size := by
  unfold signature? at h
  split at h
  · next hvariadic => exact lt_size_of_get? hvariadic
  · cases h

theorem signature?_eq_none (hshort : p.size < address + headerSize) (h : ¬p.LacksOnlyLast address) :
    p.signature? address = none := by
  cases hsig : p.signature? address with
  | none => rfl
  | some sig =>
    have hflag : address + 3 < p.size := size_of_signature? hsig
    have hsize : p.size + 1 = address + headerSize := by
      unfold headerSize at hshort ⊢
      omega
    exact absurd ⟨hsize, Option.isSome_iff_exists.2 ⟨sig, hsig⟩⟩ h

end Program

namespace Machine

variable {m : Machine} {s t : State} {kind : CallKind} {n : Int64} {f : Closure}

theorem bindArguments_ne_malformedHeader {sig : Program.Signature} {arguments : List Datum} {e : Trap}
    (h : bindArguments sig arguments = .error e) (address : Nat) : e ≠ .malformedHeader address := by
  unfold bindArguments at h
  split at h
  · dsimp only at h
    split at h <;> cases h
    exact Trap.noConfusion
  · split at h <;> cases h
    exact Trap.noConfusion

/-- A call whose operand is the number of the data above a function gets as far as the header. -/
theorem prepare_of_callee (hn : m.program.get? s.ip = some (.integer n)) (hpos : 0 ≤ n.toInt)
    (hcallee : s.stack.items[n.toInt.toNat]? = some (.function f)) :
    ∃ rest, m.prepare s =
      (do
        let sig ← m.header f.address
        let slots ← computed (bindArguments sig (s.stack.take n.toInt.toNat))
        pure ⟨f, slots, n.toInt.toNat⟩ : Action Invocation)
      { s with ip := s.ip + 1, stack := rest } := by
  obtain ⟨hlt, hf⟩ := List.getElem?_eq_some_iff.1 hcallee
  have hheight : n.toInt.toNat < s.stack.height := s.stack.height_eq ▸ hlt
  have hdrop : (s.stack.drop n.toInt.toNat).items =
      .function f :: s.stack.items.drop (n.toInt.toNat + 1) := by
    rw [Stack.items_drop, List.drop_eq_getElem_cons hlt, hf]
  obtain ⟨rest, hrest, -⟩ := Stack.exists_eq_push hdrop
  have hindex := index_eq_ok.2 ⟨n, hn, hpos, rfl, rfl⟩
  have hpop : popArguments n.toInt.toNat { s with ip := s.ip + 1 } = _ :=
    popArguments_eq_ok.2 ⟨hheight, rfl, rfl⟩
  have hfound : callee { s with ip := s.ip + 1, stack := s.stack.drop n.toInt.toNat } = _ :=
    callee_eq_ok.2 ⟨rest, hrest, rfl⟩
  exact ⟨rest, (bind_of_ok hindex).trans ((bind_of_ok hpop).trans (bind_of_ok hfound))⟩

theorem prepare_of_signature?_eq_none (hn : m.program.get? s.ip = some (.integer n)) (hpos : 0 ≤ n.toInt)
    (hcallee : s.stack.items[n.toInt.toNat]? = some (.function f))
    (hsig : m.program.signature? f.address = none) :
    ∃ rest, m.prepare s =
      .error (.malformedHeader f.address) { s with ip := s.ip + 1, stack := rest } := by
  obtain ⟨rest, hprepare⟩ := prepare_of_callee hn hpos hcallee
  refine ⟨rest, hprepare.trans (bind_of_error ?_)⟩
  simp only [header, hsig]
  rfl

/-- Where the header is in order, the call does not end for its sake. -/
theorem call_ne_malformedHeader {sig : Program.Signature} {e : Trap}
    (hn : m.program.get? s.ip = some (.integer n)) (hpos : 0 ≤ n.toInt)
    (hcallee : s.stack.items[n.toInt.toNat]? = some (.function f))
    (hsig : m.program.signature? f.address = some sig) (h : m.call kind s = .error e t) (address : Nat) :
    e ≠ .malformedHeader address := by
  obtain ⟨rest, hprepare⟩ := prepare_of_callee hn hpos hcallee
  rw [bind_of_ok (header_eq_ok.2 ⟨hsig, rfl⟩)] at hprepare
  have hend := callEnd m kind s
  rw [h] at hend
  cases hend with
  | exceeded => exact Trap.noConfusion
  | unprepared hp =>
    rw [hprepare] at hp
    cases hslots : bindArguments sig (s.stack.take n.toInt.toNat) with
    | ok slots =>
      rw [hslots] at hp
      cases hp
    | error e' =>
      rw [hslots] at hp
      cases hp
      exact bindArguments_ne_malformedHeader hslots address

/-- The step refuses to call the function at `address` because of its header, and enters nothing. -/
structure Refuses (m : Machine) (s : State) (address : Nat) : Prop where
  faulted : ∃ e, (m.step s).status = .faulted e ∧ e.trap = .malformedHeader address ∧
    e.trap.classOf = .invalidProgram
  calls : (m.next s).calls = s.calls
  scope : (m.next s).scope = s.scope
  store : (m.next s).store = s.store
  ip : (m.next s).ip ≠ address + Program.headerSize

theorem refuses_of_signature?_eq_none (hs : s.halted = false)
    (hop : m.program.opcodeAt? s.ip = some (.call kind))
    (hn : m.program.get? (s.ip + 1) = some (.integer n)) (hpos : 0 ≤ n.toInt)
    (hcallee : s.stack.items[n.toInt.toNat]? = some (.function f))
    (hshort : m.program.size < f.address + Program.headerSize)
    (hsig : m.program.signature? f.address = none) : Refuses m s f.address := by
  obtain ⟨rest, hprepare⟩ := prepare_of_signature?_eq_none (s := announced (.call kind) s) hn hpos hcallee hsig
  have hcall : m.call kind (announced (.call kind) s) =
      .error (.malformedHeader f.address) { announced (.call kind) s with ip := s.ip + 2, stack := rest } :=
    (congrFun (call_eq m kind) _).trans (bind_of_error hprepare)
  obtain ⟨hnext, i, hstatus⟩ := step_of_error hs hop (bind_of_error hcall)
  -- the operand is read, so the next address is not beyond the end
  have hoperand : s.ip + 1 < m.program.size := Program.lt_size_of_get? hn
  refine ⟨⟨_, hstatus, rfl, rfl⟩, ?_, ?_, ?_, ?_⟩ <;> rw [hnext]
  · rfl
  · rfl
  · rfl
  · show s.ip + 2 ≠ f.address + Program.headerSize
    omega

theorem signature?_eq_none_of_refuses (hs : s.halted = false)
    (hop : m.program.opcodeAt? s.ip = some (.call kind))
    (hn : m.program.get? (s.ip + 1) = some (.integer n)) (hpos : 0 ≤ n.toInt)
    (hcallee : s.stack.items[n.toInt.toNat]? = some (.function f)) (h : Refuses m s f.address) :
    m.program.signature? f.address = none := by
  obtain ⟨e, hstatus, htrap, -⟩ := h.faulted
  cases hsig : m.program.signature? f.address with
  | none => rfl
  | some sig =>
    cases hcall : m.call kind (announced (.call kind) s) with
    | ok event t =>
      obtain ⟨-, hok⟩ := step_of_ok hs hop (reported_eq_ok.2 ⟨event, rfl, hcall⟩)
      rw [hstatus] at hok
      split at hok <;> cases hok
    | error trap t =>
      obtain ⟨-, i, herror⟩ := step_of_error hs hop (bind_of_error hcall)
      rw [hstatus] at herror
      cases herror
      have hne := call_ne_malformedHeader (s := announced (.call kind) s) hn hpos hcallee hsig hcall
      exact absurd htrap (hne f.address)

/-- A header that does not fit into the program is refused, but for one way in which it can be cut short. -/
theorem truncated_header_refused_iff (hs : s.halted = false)
    (hop : m.program.opcodeAt? s.ip = some (.call kind))
    (hn : m.program.get? (s.ip + 1) = some (.integer n)) (hpos : 0 ≤ n.toInt)
    (hcallee : s.stack.items[n.toInt.toNat]? = some (.function f))
    (hshort : m.program.size < f.address + Program.headerSize) :
    Refuses m s f.address ↔ ¬m.program.LacksOnlyLast f.address := by
  constructor
  · rintro hrefuses ⟨-, hsome⟩
    rw [signature?_eq_none_of_refuses hs hop hn hpos hcallee hrefuses] at hsome
    cases hsome
  · intro hlast
    exact refuses_of_signature?_eq_none hs hop hn hpos hcallee hshort
      (Program.signature?_eq_none hshort hlast)

/-- Loads a function and calls it by `kind`, with no arguments. The program ends with the first `k` data of the
header of that function. -/
def cutAfter (kind : CallKind) (k : Nat) : Machine where
  program := .ofList <| ((Builder.empty.opWith .function 4).opWith (.call kind) 0).build.toList ++
    (Builder.empty.functionHeader 0 false).build.toList.take k
  limits := .standard

/-- Without its last two data the header is one that calls refuse. -/
theorem truncated_header_refused_iff_cutAfter_three :
    Refuses (cutAfter .tail 3) ((cutAfter .tail 3).next .initial) 4 := by
  have hop : (cutAfter .tail 3).program.opcodeAt? 2 = some (.call .tail) := by decide
  exact (truncated_header_refused_iff (n := 0) (f := ⟨4, globalScope⟩) (by decide) hop (by decide) (by decide)
    (by decide) (by decide)).2 (by decide)

/-- Without its last datum alone it is one that a call enters, and the address behind it is reached. -/
theorem truncated_header_entered :
    let m := cutAfter .plain 4
    let s := m.next .initial
    m.program.opcodeAt? s.ip = some (.call .plain) ∧
      s.stack.items[0]? = some (.function ⟨4, globalScope⟩) ∧
      m.program.size < 4 + Program.headerSize ∧ (m.step s).status = .running ∧
      (m.next s).calls = s.calls.push ⟨s.ip + 2, s.scope⟩ ∧ (m.next s).scope ≠ s.scope ∧
      (m.next s).ip = 4 + Program.headerSize := by
  decide

end Machine

end StackMachine
