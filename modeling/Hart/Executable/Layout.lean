import Hart.Executable.Header
import Hart.Memory.Basic

namespace Hart

inductive LoadError
  | notElf
  | wrongClass
  | wrongMachine (machine : Nat)
  | noSegments
  | truncated (address : Nat)
  | addressOverflow (address : Nat)
  | memory (cause : MemoryError)
  deriving DecidableEq

def LoadError.message : LoadError → String
  | .notElf => "not an ELF file"
  | .wrongClass => "expected a 32-bit little-endian ELF"
  | .wrongMachine machine =>
    "expected a RISC-V executable, found machine " ++ Numeral.decimal machine
  | .noSegments => "no loadable segments"
  | .truncated a => "segment at " ++ Numeral.address a ++ " points outside the file"
  | .addressOverflow a =>
    "segment at " ++ Numeral.address a ++ " does not fit in a 32-bit address space"
  | .memory e => e.message

namespace Executable

/-- The addresses from `start` up to `stop`, of which the first hold `data` and the others zeroes. -/
structure Segment where
  start : Nat
  stop : Nat
  data : Array Byte
  writable : Bool

namespace Segment

def overlaps (s : Segment) (start stop : Nat) : Bool :=
  decide (s.start < stop) && decide (start < s.stop)

def run? (s : Segment) (start stop : Nat) : Option Run :=
  let first := max s.start start
  let last := min (s.start + s.data.size) stop
  if first < last then some ⟨first - start, s.data.extract (first - s.start) (last - s.start)⟩
  else none

end Segment

def ProgramHeader.failure? (file : Array Byte) (h : ProgramHeader) : Option LoadError :=
  if Memory.addressSpace < h.stop then some (.addressOverflow h.address)
  else if h.memorySize < h.fileSize ∨ file.size < h.offset + h.fileSize then
    some (.truncated h.address)
  else none

def ProgramHeader.segment (file : Array Byte) (h : ProgramHeader) : Segment :=
  ⟨h.address, h.stop, file.extract h.offset (h.offset + h.fileSize), h.writable⟩

def soundHeaders (file : Array Byte) : List ProgramHeader → List ProgramHeader × Option LoadError
  | [] => ([], none)
  | h :: rest =>
    match h.failure? file with
    | some e => ([], some e)
    | none =>
      let (sound, failure?) := soundHeaders file rest
      (h :: sound, failure?)

structure Plan where
  entry : Word
  segments : List Segment

structure Reading where
  headers : List ProgramHeader
  plan : Except LoadError Plan

namespace Reading

/-- What the headers of a file amount to, if it has any. Segments without addresses are checked like the
others and then left out. -/
def ofHeader (file : Array Byte) : Option Header → Reading
  | none => ⟨[], .error .notElf⟩
  | some h =>
    if h.wide ∨ h.order = .big then ⟨[], .error .wrongClass⟩
    else if h.machine ≠ 243 then ⟨[], .error (.wrongMachine h.machine)⟩
    else
      match soundHeaders file (h.programHeaders.filter ProgramHeader.isLoad) with
      | (headers, some e) => ⟨headers, .error e⟩
      | (headers, none) =>
        let segments := (headers.filter (0 < ·.memorySize)).map (·.segment file)
        ⟨headers, if segments.isEmpty then .error .noSegments
          else .ok ⟨BitVec.ofNat 32 h.entry, segments⟩⟩

end Reading

def read (file : Array Byte) : Reading := .ofHeader file (Header.read? file)

namespace Plan

def top (p : Plan) : Nat := p.segments.foldl (fun t s => max t s.stop) 0

/-- What backs the addresses from `start` up to `stop`. Data of later segments hides that of earlier
ones. -/
def storage (p : Plan) (start stop : Nat) : Storage :=
  let touching := p.segments.filter fun s => s.overlaps start stop
  if touching.isEmpty then .zero
  else
    let bytes := ByteStore.ofRuns (stop - start) (touching.reverse.filterMap (·.run? start stop))
    if touching.any Segment.writable then .ram bytes else .image bytes

def pagesFrom (p : Plan) (top start : Nat) (m : Memory) : Insertion :=
  if start < top then
    let storage := p.storage start (start + m.pageSize)
    match m.refusal? storage with
    | some e => ⟨m, some e⟩
    | none => p.pagesFrom top (start + m.pageSize) (m.push storage)
  else ⟨m, none⟩
termination_by top - start
decreasing_by
  have := m.pageSize_pos
  omega

def layOut (p : Plan) (m : Memory) (stackPages : Nat) : Insertion :=
  (p.pagesFrom p.top 0 m).next fun m => m.appendRam stackPages

/-- A guard page ends the stack, unless the stack ends with the address space. -/
def load (p : Plan) (m : Memory) (stackPages : Nat) : Except MemoryError Image :=
  match p.layOut m stackPages with
  | ⟨_, some e⟩ => .error e
  | ⟨m, none⟩ =>
    let stackPointer := BitVec.ofNat 32 m.stop
    if m.stop < Memory.addressSpace then
      match m.insert .guard with
      | .ok m => .ok ⟨m, p.entry, stackPointer⟩
      | .error e => .error e
    else .ok ⟨m, p.entry, stackPointer⟩

end Plan

def Reading.load (r : Reading) (m : Memory) (stackPages : Nat) : Except LoadError Image :=
  match r.plan with
  | .error e => .error e
  | .ok p =>
    match p.load m stackPages with
    | .error e => .error (.memory e)
    | .ok image => .ok image

end Executable

end Hart
