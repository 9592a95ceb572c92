import Hart.Execution.Action

namespace Hart

structure Processor (σ : Type) where
  table : InstructionSet
  hooks : Hooks σ
  host : σ
  machine : Machine
  status : Status
  fault? : Option Exception
  steps : Nat
  stopRequested : Bool

inductive RunOutcome
  | halted
  | budgetExhausted
  deriving DecidableEq, Repr

abbrev Outcome (σ α : Type) := Except Exception α × Processor σ

namespace Processor

def start (table : InstructionSet) (hooks : Hooks σ) (host : σ) (machine : Machine) : Processor σ :=
  ⟨table, hooks, host, machine, .running, none, 0, false⟩

def pc (p : Processor σ) : Word := p.machine.pc

def halt (p : Processor σ) : Processor σ :=
  if p.status = .running then { p with status := .halted } else p

def requestStop (p : Processor σ) : Processor σ := { p with stopRequested := true }

def checkStop (p : Processor σ) : Processor σ := if p.stopRequested then p.halt else p

def raise (p : Processor σ) (e : Exception) : Processor σ :=
  { p with status := .faulted, fault? := some e }

def accept (p : Processor σ) (r : Reply σ Exception) : Outcome σ Unit :=
  let q := { p with machine := r.machine, host := r.host, stopRequested := p.stopRequested || r.stop }
  match r.failure? with
  | none => (.ok (), { q with steps := q.steps + 1 })
  | some e => (.error e, q.raise e)

def step (p : Processor σ) : Outcome σ Unit :=
  if p.status = .running then
    match p.machine.fetch p.table with
    | .error e => (.error e, p.raise e)
    | .ok i => p.accept (i.descriptor.action.execute p.hooks p.host p.machine i.operands)
  else (.error (.notRunning p.status), p)

/-- Executes up to `n` instructions. The host's wish to stop is heard before each of them, and once more
after the last. -/
def runFor : Nat → Processor σ → Outcome σ RunOutcome
  | 0, p =>
    let q := p.checkStop
    (.ok (if q.status = .halted then .halted else .budgetExhausted), q)
  | n + 1, p =>
    let q := p.checkStop
    if q.status = .halted then (.ok .halted, q)
    else match q.step with
      | (.ok (), r) => runFor n r
      | (.error e, r) => (.error e, r)

/-- Runs until the host stops the processor or an instruction fails, and has no value if neither
happens. -/
def run (p : Processor σ) : Option (Outcome σ Unit) :=
  let q := p.checkStop
  if q.status = .halted then some (.ok (), q)
  else match q.step with
    -- A call by tactic keeps its place in the text out of the term.
    | (.ok (), r) => by apply run; exact r
    | (.error e, r) => some (.error e, r)
partial_fixpoint

def text (p : Processor σ) : String :=
  "step: " ++ Numeral.decimal p.steps ++ " | pc: " ++ Numeral.hex8 p.pc.toNat ++ " | status: " ++
    p.status.name ++ " | regs: " ++ p.machine.registers.text

end Processor

end Hart
