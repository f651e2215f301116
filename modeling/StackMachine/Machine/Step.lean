import StackMachine.Machine.Execute

/-!
# Steps and runs

A step fetches the instruction at the instruction pointer and carries it out. It is a total function:
whatever stands in the program, the machine goes on, has halted or meets a fault. After a fault it can
be stepped again from the state that the fault left.
-/

namespace StackMachine

inductive Status where
  | running
  | halted
  | faulted (f : Fault)
deriving DecidableEq, Repr

/-- What a step leads to, and what it reports, in order. -/
structure Outcome where
  state : State
  status : Status
  events : List Event
deriving Repr

namespace Machine

def fetch (m : Machine) (address : Nat) : Except Trap Instruction :=
  match m.program.get? address with
  | some (.instruction i) => .ok i
  | some d => .error (.notAnInstruction d.tag)
  | none => .error (.outsideProgram address m.program.size)

/-- Moves past an instruction that is about to be carried out, and reports it. The deprecated one gets a
warning the first time. -/
def announce (op : Opcode) (s : State) : State × List Event :=
  let warn := op == .emptyArray && !s.warned
  ({ s with ip := s.ip + 1, warned := s.warned || op == .emptyArray },
    .execute s.ip op s.stack.height :: if warn then [.deprecated s.ip] else [])

/-- A machine that has halted stays as it is. -/
def step (m : Machine) (s : State) : Outcome :=
  if s.halted then ⟨s, .halted, []⟩
  else match m.fetch s.ip with
    | .error t => ⟨s, .faulted ⟨t, s.ip, none⟩, []⟩
    | .ok i => match i.opcode? with
      | none => ⟨s, .faulted ⟨.unknownOpcode i.id, s.ip, some i⟩, []⟩
      | some op =>
        let address := s.ip
        let (s, announced) := announce op s
        match m.execute op s with
        | .ok reported s => ⟨s, if s.halted then .halted else .running, announced ++ reported.toList⟩
        | .error t s => ⟨s, .faulted ⟨t, address, some i⟩, announced⟩

/-- A run of at most `budget` steps, which ends early with a step that does not leave the machine
running. Each outcome of a step goes into what `observe` gathers. -/
def observe {α : Type} (m : Machine) (record : α → Outcome → α) :
    (budget : Nat) → α → State → α × State × Status
  | 0, a, s => (a, s, .running)
  | budget + 1, a, s =>
    let o := m.step s
    let a := record a o
    match o.status with
    | .running => observe m record budget a o.state
    | status => (a, o.state, status)

/-- A run of at most `budget` steps. -/
def run (m : Machine) (budget : Nat) (s : State) : State × Status :=
  (m.observe (fun (_ : Unit) _ => ()) budget () s).2

end Machine

end StackMachine
