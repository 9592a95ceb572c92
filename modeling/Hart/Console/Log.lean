import Hart.Execution.Processor

namespace Hart.Console

inductive Level
  | error
  | warn
  | info
  | debug
  | trace
  deriving DecidableEq, Repr

def Level.rank : Level → Nat
  | .error => 0
  | .warn => 1
  | .info => 2
  | .debug => 3
  | .trace => 4

def Level.name : Level → String
  | .error => "ERROR"
  | .warn => "WARN "
  | .info => "INFO "
  | .debug => "DEBUG"
  | .trace => "TRACE"

inductive Origin
  | assembler
  | memory
  | executable
  | processor
  | instructions
  | command
  deriving DecidableEq, Repr

def Origin.name : Origin → String
  | .assembler => "rv32i_emulator::assembler"
  | .memory => "rv32i_emulator::memory"
  | .executable => "rv32i_emulator::elf"
  | .processor => "rv32i_emulator::processor"
  | .instructions => "rv32i_emulator::rv32i"
  | .command => "rvemu"

structure Entry where
  level : Level
  origin : Origin
  text : String

def Entry.line (e : Entry) : String := "[" ++ e.level.name ++ " " ++ e.origin.name ++ "] " ++ e.text

abbrev Filter := Origin → Option Level

namespace Filter

def allows (f : Filter) (level : Level) (origin : Origin) : Bool :=
  match f origin with
  | none => false
  | some l => decide (level.rank ≤ l.rank)

def lines (f : Filter) (es : List Entry) : List String :=
  (es.filter fun e => f.allows e.level e.origin).map Entry.line

/-- Without a level only errors are shown. Showing the steps hides everything else unless a level is
given too. -/
def ofFlags (level? : Option (Option Level)) (showSteps : Bool) : Filter := fun origin =>
  if showSteps && origin == .processor then some .trace
  else match level? with
    | some level => level
    | none => if showSteps then none else some .error

end Filter

def pageEntries (m : Memory) (first : Nat) : List Entry :=
  (m.pages.toList.zipIdx.drop first).map fun (p, i) =>
    ⟨.debug, .memory, "page #" ++ Numeral.decimal i ++ " at " ++ Numeral.hex8 p.start ++ ".." ++
      Numeral.hex8 p.stop ++ ": " ++ p.storage.kind⟩

def callEntries (pc : Word) : {f : Format} → Action f → List Entry
  | _, .systemCall => [⟨.debug, .instructions, "system call at " ++ Numeral.hex8 pc.toNat⟩]
  | _, .systemBreak => [⟨.debug, .instructions, "system break at " ++ Numeral.hex8 pc.toNat⟩]
  | _, _ => []

def instructionEntries (p : Processor σ) : List Entry :=
  match p.machine.fetch p.table with
  | .error _ => []
  | .ok i =>
    ⟨.trace, .processor, "#" ++ Numeral.decimal p.steps ++ " | pc: " ++ Numeral.hex8 p.pc.toNat ++
      " | val: " ++ Numeral.hex8 i.word.toNat ++ " | inst: " ++ i.text⟩ ::
      callEntries p.pc i.descriptor.action

def faultEntries (p : Processor σ) : List Entry :=
  match p.fault? with
  | none => []
  | some e =>
    if e.isFatalTrap then
      [⟨.error, .processor, "trap at pc " ++ Numeral.hex8 p.pc.toNat ++ ": " ++ e.message⟩]
    else [⟨.warn, .processor, "fault at pc " ++ Numeral.hex8 p.pc.toNat ++ ": " ++ e.message⟩]

def stepLines (f : Filter) : Nat → Processor σ → Array String → Array String
  | 0, _, shown => shown
  | n + 1, p, shown =>
    if p.status = .running then
      stepLines f n p.step.2 (shown ++ (f.lines (instructionEntries p)).toArray)
    else shown

/-- The log of a run from `p` to `q`, which started `q.steps` steps and, if it ended in an exception, one
more. -/
def runLines (f : Filter) (p q : Processor σ) : List String :=
  let steps :=
    if f.allows .trace .processor || f.allows .debug .instructions then
      (stepLines f (if q.status = .faulted then q.steps + 1 else q.steps) p #[]).toList
    else []
  steps ++ f.lines (faultEntries q)

end Hart.Console
