import Hart.Instruction.Table
import Hart.Memory.Basic
import Hart.Register

namespace Hart

/-- A halted processor was stopped by the host, a faulted one by an exception. -/
inductive Status
  | running
  | halted
  | faulted
  deriving DecidableEq, Repr

def Status.name : Status → String
  | .running => "Running"
  | .halted => "Halted"
  | .faulted => "Faulted"

inductive Exception
  | decode (cause : DecodeError)
  | memory (cause : MemoryError)
  | hook (pc : Word) (text : String)
  | notRunning (status : Status)
  deriving DecidableEq

namespace Exception

def isFatalTrap : Exception → Bool
  | .memory e => e.isFatalTrap
  | _ => false

def message : Exception → String
  | .decode e => e.message
  | .memory e => e.message
  | .hook pc text => "hook failed at pc " ++ Numeral.address pc.toNat ++ ": " ++ text
  | .notRunning status => "processor is " ++ status.name

end Exception

structure Machine where
  pc : Word
  registers : RegisterFile
  memory : Memory

namespace Machine

def ofMemory (memory : Memory) : Machine := ⟨0, .zero, memory⟩

def nextPc (m : Machine) : Word := m.pc + 4

def advance (m : Machine) : Machine := { m with pc := m.nextPc }

def jump (m : Machine) (offset : Word) : Machine := { m with pc := m.pc + offset }

def read (m : Machine) (r : Register) : Word := m.registers.read r

def write (m : Machine) (r : Register) (v : Word) : Machine :=
  { m with registers := m.registers.write r v }

def fetch (m : Machine) (s : InstructionSet) : Except Exception Instruction :=
  match m.memory.peek .word m.pc with
  | .error e => .error (.memory e)
  | .ok w =>
    match s.decode w with
    | .error e => .error (.decode e)
    | .ok i => .ok i

end Machine

end Hart
