import Hart.Memory.Page

namespace Hart

structure Memory where
  pageSize : Nat
  pageSize_pos : 0 < pageSize
  pages : Array Page

/-- Pages put behind a memory one after the other, until one failed. -/
structure Insertion where
  memory : Memory
  failure? : Option MemoryError

namespace Memory

def addressSpace : Nat := 0x100000000

def empty (pageSize : Nat) (h : 0 < pageSize) : Memory := ⟨pageSize, h, #[]⟩

def stop (m : Memory) : Nat := (m.pages.back?.map Page.stop).getD 0

def pageAt? (m : Memory) (a : Word) : Option Page := m.pages[a.toNat / m.pageSize]?

def refusal? (m : Memory) (s : Storage) : Option MemoryError :=
  if m.pageSize < s.length then some (.imageTooLarge s.length m.pageSize)
  else if addressSpace < m.stop + m.pageSize then some .addressSpaceExhausted
  else none

def push (m : Memory) (s : Storage) : Memory :=
  let page : Page := ⟨m.stop, m.stop + m.pageSize, s.rights, s⟩
  { m with pages := m.pages.push page }

def insert (m : Memory) (s : Storage) : Except MemoryError Memory :=
  match m.refusal? s with
  | some e => .error e
  | none => .ok (m.push s)

def insertFrom (s : Nat → Storage) (i : Nat) : Nat → Memory → Insertion
  | 0, m => ⟨m, none⟩
  | n + 1, m =>
    let storage := s i
    match m.refusal? storage with
    | some e => ⟨m, some e⟩
    | none => insertFrom s (i + 1) n (m.push storage)

theorem insertFrom_succ (s : Nat → Storage) (i n : Nat) (m : Memory) :
    insertFrom s i (n + 1) m = match m.insert (s i) with
      | .error e => ⟨m, some e⟩
      | .ok m => insertFrom s (i + 1) n m := by
  simp only [insertFrom, insert]
  split <;> simp_all

def pagesFor (m : Memory) (n : Nat) : Nat := max 1 ((n + m.pageSize - 1) / m.pageSize)

def chunk (m : Memory) (bytes : Array Byte) (i : Nat) : ByteStore :=
  .ofArray (bytes.extract (i * m.pageSize) ((i + 1) * m.pageSize))

def insertImage (m : Memory) (bytes : Array Byte) (writable : Bool) : Insertion :=
  let storage (i : Nat) : Storage :=
    if writable then .ram (m.chunk bytes i) else .image (m.chunk bytes i)
  insertFrom storage 0 (m.pagesFor bytes.size) m

def addedRange (m : Memory) (r : Insertion) : Except MemoryError (Nat × Nat) :=
  match r.failure? with
  | none => .ok (m.stop, r.memory.stop)
  | some e => .error e

def peek (m : Memory) (w : Width) (a : Word) : Except MemoryError Word :=
  match m.pageAt? a with
  | some p => p.peek w a
  | none => .error (.outOfRange a)

def poke (m : Memory) (w : Width) (a v : Word) : Except MemoryError Memory :=
  let i := a.toNat / m.pageSize
  if h : i < m.pages.size then
    match m.pages[i].poke w a v with
    | .ok p => .ok { m with pages := m.pages.set i p }
    | .error e => .error e
  else .error (.outOfRange a)

/-- The byte `i` places above `a`, which is never the byte of an address that wraps. -/
def byteAbove (m : Memory) (a : Word) (i : Nat) : Except MemoryError Byte :=
  if a.toNat + i < addressSpace then
    match m.peek .byte (a + BitVec.ofNat 32 i) with
    | .ok v => .ok (v.setWidth 8)
    | .error e => .error e
  else .error (.outOfRange a)

def readBytesFrom (m : Memory) (a : Word) (i : Nat) : Nat → Array Byte → Except MemoryError (Array Byte)
  | 0, read => .ok read
  | n + 1, read =>
    match m.byteAbove a i with
    | .ok b => readBytesFrom m a (i + 1) n (read.push b)
    | .error e => .error e

def readBytes (m : Memory) (a : Word) (n : Nat) : Except MemoryError (Array Byte) :=
  m.readBytesFrom a 0 n #[]

def lines (m : Memory) : List String :=
  ("page size " ++ Numeral.decimal m.pageSize) :: m.pages.toList.map fun p => "  " ++ p.text

def text (m : Memory) : String := String.join (m.lines.map fun l => l ++ "\n")

end Memory

structure Image where
  memory : Memory
  entry : Word
  stackPointer : Word

def Insertion.next (r : Insertion) (f : Memory → Insertion) : Insertion :=
  match r.failure? with
  | none => f r.memory
  | some _ => r

def Memory.append (m : Memory) (s : Storage) : Insertion := Memory.insertFrom (fun _ => s) 0 1 m

def Memory.appendRam (m : Memory) (n : Nat) : Insertion :=
  Memory.insertFrom (fun _ => .zeroedRam m.pageSize) 0 n m

end Hart
