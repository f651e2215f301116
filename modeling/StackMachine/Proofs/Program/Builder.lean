import StackMachine.Proofs.Machine.Defined
import StackMachine.Proofs.Machine.Headers

/-!
# Headers that a builder writes

A builder only ever appends (`Builder.code_followed`), so that a header stands where it was written, whatever
the program began with and whatever came behind it (`Builder.get?_header`). A header is read by the offsets of
its parameter count and its flag (`Program.signature?_of_get?`), and these are where the builder has put
them: what is read is what was declared, as far as there is a function with such parameters
(`Builder.header_read_back`).
-/

namespace StackMachine

-- powers are those of the core library, whatever else is imported
attribute [local instance (high)] instPowNat

/-! ### Reading a header -/

namespace Program

variable {p : Program} {address : Nat} {sig : Signature} {n k : Int64}

/-- The data at the two offsets that are read of a header are integers and tell the signature. -/
def HoldsSignature (p : Program) (address : Nat) (sig : Signature) : Prop :=
  ∃ parameters variadic : Int64,
    p.get? (address + parametersOffset) = some (.integer parameters) ∧
    p.get? (address + variadicOffset) = some (.integer variadic) ∧
    (sig.parameters : Int) = parameters.toInt ∧ (sig.variadic = true ↔ variadic ≠ 0)

/-- The signature of a function with `parameters` parameters, if there can be one: a variadic function has a
parameter that collects. -/
def declared? (parameters : Int64) (variadic : Bool) : Option Signature :=
  if 0 ≤ parameters.toInt ∧ ¬(variadic = true ∧ parameters = 0) then
    some ⟨parameters.toInt.toNat, variadic⟩
  else none

theorem signature?_of_get? (hn : p.get? (address + parametersOffset) = some (.integer n))
    (hk : p.get? (address + variadicOffset) = some (.integer k)) :
    p.signature? address = declared? n (k != 0) := by
  unfold signature? declared?
  rw [hn, hk]
  dsimp only
  by_cases h : n.toInt < 0 ∨ k ≠ 0 ∧ n = 0
  · rw [if_pos h, if_neg]
    rintro ⟨hpos, hzero⟩
    rcases h with h | ⟨hk, hn⟩
    · omega
    · exact hzero ⟨by simpa using hk, hn⟩
  · obtain ⟨hpos, hzero⟩ := not_or.1 h
    rw [if_neg h, if_pos]
    refine ⟨Int.not_lt.1 hpos, ?_⟩
    rintro ⟨hk, hn⟩
    exact hzero ⟨by simpa using hk, hn⟩

theorem holdsSignature_of_declared? (hn : p.get? (address + parametersOffset) = some (.integer n))
    (hk : p.get? (address + variadicOffset) = some (.integer k)) (h : declared? n (k != 0) = some sig) :
    p.HoldsSignature address sig := by
  unfold declared? at h
  split at h
  · next hvalid =>
    cases h
    exact ⟨n, k, hn, hk, Int.toNat_of_nonneg hvalid.1, by simp⟩
  · cases h

theorem holdsSignature_of_signature? (h : p.signature? address = some sig) :
    p.HoldsSignature address sig := by
  have hread := h
  unfold signature? at h
  split at h
  · next n k hn hk =>
    rw [signature?_of_get? hn hk] at hread
    exact holdsSignature_of_declared? hn hk hread
  · cases h

end Program

namespace Guarded

open Program (Signature)

variable {p : Program} {address offset entry : Nat} {sig : Signature} {n : Int64}

theorem get?_of_headerField (h : headerField p address offset = .ok n) :
    p.get? (address + offset) = some (.integer n) := by
  unfold headerField add? at h
  split at h
  · next hd =>
    cases h
    split at hd
    · exact hd
    · cases hd
  · cases h

/-- Words or not, what a header tells stands at its offsets. -/
theorem holdsSignature_of_header (h : header p address = .ok (sig, entry)) :
    p.HoldsSignature address sig ∧ entry = address + Program.headerSize := by
  unfold header at h
  cases hn : headerField p address Program.parametersOffset with
  | error e =>
    rw [hn] at h
    cases h
  | ok n =>
  cases hk : headerField p address Program.variadicOffset with
  | error e =>
    simp only [hn, hk, bind, Except.bind] at h
    split at h <;> cases h
  | ok k =>
    simp only [hn, hk, bind, Except.bind] at h
    split at h
    · cases h
    next hpos =>
    split at h
    · cases h
    next hzero =>
    unfold add? at h
    split at h
    · next entry' hentry =>
      cases h
      split at hentry
      · cases hentry
        exact ⟨⟨n, k, get?_of_headerField hn, get?_of_headerField hk, Int.toNat_of_nonneg (by omega),
          by simp⟩, rfl⟩
      · cases hentry
    · cases h

end Guarded

/-! ### Writing a header -/

namespace Builder

open Program (Signature declared?)

variable {b : Builder} {n : Int64} {v : Bool} {d : Datum} {i : Nat}

inductive Request where
  | datum (d : Datum)
  | op (op : Opcode)
  | opAt (op : Opcode) (line : UInt32) (file : String)
  | opWith (op : Opcode) (operand : Int64)
  | constant (d : Datum)
  | functionHeader (parameters : Int64) (variadic : Bool)

def serve (b : Builder) : Request → Builder
  | .datum d => b.datum d
  | .op op => b.op op
  | .opAt op line file => b.opAt op line file
  | .opWith op operand => b.opWith op operand
  | .constant d => b.constant d
  | .functionHeader parameters variadic => b.functionHeader parameters variadic

def followed (b : Builder) (requests : List Request) : Builder := requests.foldl serve b

def headerData (n : Int64) (v : Bool) : Array Datum :=
  #[.instruction (.bare .nothing), .null, .integer n, .ofBool v, .integer 0]

theorem code_functionHeader (b : Builder) (n : Int64) (v : Bool) :
    (b.functionHeader n v).code = b.code ++ headerData n v := rfl

theorem here_functionHeader (b : Builder) (n : Int64) (v : Bool) :
    (b.functionHeader n v).here = b.here + Program.headerSize := by
  rw [here, code_functionHeader, Array.size_append]
  rfl

theorem code_serve (b : Builder) (r : Request) : ∃ data, (b.serve r).code = b.code ++ data := by
  cases r with
  | datum d => exact ⟨#[d], rfl⟩
  | op op => exact ⟨#[.instruction (.bare op)], rfl⟩
  | opAt op line file => exact ⟨#[.instruction ⟨op.id, line, file⟩], rfl⟩
  | opWith op operand => exact ⟨#[.instruction (.bare op), .integer operand], rfl⟩
  | constant d => exact ⟨#[.instruction (.bare .constant), d], rfl⟩
  | functionHeader n v => exact ⟨headerData n v, rfl⟩

theorem code_followed (b : Builder) (requests : List Request) :
    ∃ data, (b.followed requests).code = b.code ++ data := by
  induction requests generalizing b with
  | nil => exact ⟨#[], (Array.append_empty).symm⟩
  | cons r requests ih =>
    obtain ⟨first, hfirst⟩ := code_serve b r
    obtain ⟨rest, hrest⟩ := ih (b.serve r)
    exact ⟨first ++ rest, by rw [followed, List.foldl_cons, ← followed, hrest, hfirst, Array.append_assoc]⟩

theorem get?_followed (h : b.build.get? i = some d) (requests : List Request) :
    (b.followed requests).build.get? i = some d := by
  obtain ⟨data, hdata⟩ := code_followed b requests
  have hi : i < b.code.size := Program.lt_size_of_get? h
  show (b.followed requests).code[i]? = _
  rw [hdata, Array.getElem?_append_left hi]
  exact h

theorem get?_header (b : Builder) (n : Int64) (v : Bool) (h : (headerData n v)[i]? = some d) :
    (b.functionHeader n v).build.get? (b.here + i) = some d := by
  show (b.functionHeader n v).code[b.code.size + i]? = _
  rw [code_functionHeader, Array.getElem?_append_right (Nat.le_add_right _ _), Nat.add_sub_cancel_left]
  exact h

theorem signature?_followed (b : Builder) (n : Int64) (v : Bool) (requests : List Request) :
    ((b.functionHeader n v).followed requests).build.signature? b.here = declared? n v := by
  have hn := get?_followed (get?_header b n v (i := Program.parametersOffset) rfl) requests
  have hk := get?_followed (get?_header b n v (i := Program.variadicOffset) rfl) requests
  have hflag : ((if v then 1 else 0 : Int64) != 0) = v := by cases v <;> decide
  rw [Program.signature?_of_get? hn hk, hflag]

/-- A header that a builder has written is read as it was declared, whatever the builder had written before
it and was asked for behind it. A negative number of parameters is refused, and so is a variadic function
without a parameter. -/
theorem header_read_back (b : Builder) (n : Int64) (v : Bool) (requests : List Request) :
    ((b.functionHeader n v).followed requests).build.signature? b.here = declared? n v ∧
    (b.functionHeader n v).here = b.here + Program.headerSize ∧
    (((b.functionHeader n v).followed requests).build.size ≤ 2 ^ (63 : Nat) - 1 →
      Guarded.header ((b.functionHeader n v).followed requests).build b.here =
        match declared? n v with
        | some sig => .ok (sig, (b.functionHeader n v).here)
        | none => .error (.trap (.malformedHeader b.here))) ∧
    ∀ (p : Program) (address : Nat) (sig : Signature),
      (p.signature? address = some sig → p.HoldsSignature address sig) ∧
      ∀ entry, Guarded.header p address = .ok (sig, entry) →
        p.HoldsSignature address sig ∧ entry = address + Program.headerSize := by
  have hsig := signature?_followed b n v requests
  refine ⟨hsig, here_functionHeader b n v, ?_, ?_⟩
  · intro hsize
    rw [Guarded.header_eq (by omega), hsig]
    cases declared? n v with
    | none => rfl
    | some sig => rw [here_functionHeader]
  · intro p address sig
    exact ⟨Program.holdsSignature_of_signature?, fun _ => Guarded.holdsSignature_of_header⟩

/-- Two headers with an instruction between them, the second one of no function. -/
theorem header_read_back_refusedBehind :
    ∃ p : Program, p.size = 13 ∧ Guarded.header p 2 = .ok (⟨3, true⟩, 7) ∧ p.HoldsSignature 2 ⟨3, true⟩ ∧
      Guarded.header p 8 = .error (.trap (.malformedHeader 8)) := by
  let b := Builder.empty.opWith .jump 7
  obtain ⟨-, -, hfirst, hholds⟩ := header_read_back b 3 true [.op .ret, .functionHeader 0 true]
  obtain ⟨-, -, hsecond, -⟩ := header_read_back ((b.functionHeader 3 true).op .ret) 0 true []
  have hread := hfirst (by decide)
  exact ⟨_, rfl, hread, ((hholds _ _ _).2 _ hread).1, hsecond (by decide)⟩

end Builder

end StackMachine
