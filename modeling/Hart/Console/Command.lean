import Hart.Assembly.Program
import Hart.Console.Host
import Hart.Console.Log
import Hart.Executable.Layout
import Hart.Text.Utf8

namespace Hart.Console

structure Options where
  elf : Bool := false
  pageSize : Nat := 4096
  ramPages : Nat := 1
  maxSteps? : Option Nat := none
  showSteps : Bool := false
  dump : Bool := false
  level? : Option (Option Level) := none

def Options.filter (o : Options) : Filter := .ofFlags o.level? o.showSteps

structure Report where
  stdout : Array Byte
  stderr : List String
  exitCode : Nat
  deriving DecidableEq

structure Loading where
  log : List Entry
  image : Except String Image

def guardEntries (body : Memory) (image : Except ε Image) : List Entry :=
  match image with
  | .ok image => pageEntries image.memory body.pages.size
  | .error _ => []

def loadSource (m : Memory) (ramPages : Nat) (source : String) : Loading :=
  let (program, failure?) := Assembly.assembleUntilFailure .base source
  let lines := program.lines.map fun l =>
    (⟨.debug, .assembler, Numeral.aligned 3 l.number ++ ": " ++ Numeral.hex8 l.word.toNat ++ "  " ++
      l.span.slice source⟩ : Entry)
  match failure? with
  | some e => ⟨lines, .error e.message⟩
  | none =>
    let body := (program.layOut m ramPages).memory
    let image := program.load m ramPages
    ⟨lines ++ pageEntries body 0 ++ guardEntries body image, image.mapError MemoryError.message⟩

def loadExecutable (m : Memory) (stackPages : Nat) (file : Array Byte) : Loading :=
  let reading := Executable.read file
  let headers := reading.headers.map fun h =>
    (⟨.debug, .executable, "segment " ++ Numeral.hex8 h.address ++ ".." ++ Numeral.hex8 h.stop ++
      " file 0x" ++ Numeral.hex h.fileSize ++ " flags 0x" ++ Numeral.hex h.flags⟩ : Entry)
  let image := reading.load m stackPages
  let pages : List Entry :=
    match reading.plan with
    | .error _ => []
    | .ok plan =>
      let body := plan.layOut m stackPages
      let stack : List Entry :=
        if body.failure?.isSome then []
        else [⟨.debug, .executable, "stack below " ++ Numeral.hex8 body.memory.stop⟩]
      pageEntries body.memory 0 ++ stack ++ guardEntries body.memory image
  ⟨headers ++ pages, image.mapError LoadError.message⟩

def load (o : Options) (m : Memory) (file : Array Byte) : Loading :=
  if o.elf then loadExecutable m o.ramPages file
  else match Text.Utf8.decode file with
    | .ok source => loadSource m o.ramPages source
    | .error e => ⟨[], .error e.message⟩

def processor (image : Image) : Processor Host :=
  .start .base hooks .initial
    ⟨image.entry, .withStackPointer image.stackPointer, image.memory⟩

def execute (o : Options) (p : Processor Host) : Option (Outcome Host RunOutcome) :=
  match o.maxSteps? with
  | some n => some (p.runFor n)
  | none => p.run.map fun (result, q) => (result.map fun _ => .halted, q)

def failed (f : Filter) (stdout : Array Byte) (stderr : List String) (message : String) : Report :=
  ⟨stdout, stderr ++ f.lines [⟨.error, .command, message⟩], 1⟩

def report (o : Options) (path : String) (told : List String) (p : Processor Host) : Option Report :=
  let f := o.filter
  (execute o p).map fun (result, q) =>
    let stderr := told ++
      f.lines [⟨.info, .command, "running " ++ path ++ " from " ++ Numeral.hex8 p.pc.toNat⟩] ++
      runLines f p q ++
      f.lines [⟨.info, .command,
        "stopped after " ++ Numeral.decimal q.steps ++ " steps: " ++ q.status.name⟩] ++
      (if o.dump then q.text :: q.machine.memory.lines else [])
    match result with
    | .ok .halted => ⟨q.host.output, stderr, q.host.exitCode.toNat % 256⟩
    | .ok .budgetExhausted =>
      failed f q.host.output stderr ("no exit after " ++ Numeral.decimal q.steps ++ " steps")
    | .error e => failed f q.host.output stderr e.message

/-- The whole command, for a file at `path` with the given contents, or the reason why it could not be
read. There is no report if the program never ends. -/
def run (o : Options) (path : String) (file : Except String (Array Byte)) : Option Report :=
  let f := o.filter
  if h : 0 < o.pageSize ∧ o.pageSize % 4 = 0 then
    match file with
    | .error e => some (failed f #[] [] e)
    | .ok file =>
      let loading := load o (.empty o.pageSize h.1) file
      match loading.image with
      | .error e => some (failed f #[] (f.lines loading.log) e)
      | .ok image => report o path (f.lines loading.log) (processor image)
  else
    some (failed f #[] []
      ("page size " ++ Numeral.decimal o.pageSize ++ " is not a positive multiple of 4"))

end Hart.Console
