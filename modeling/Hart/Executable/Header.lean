import Hart.Text.Printing
import Hart.Word

namespace Hart.Executable

inductive ByteOrder
  | little
  | big
  deriving DecidableEq, Repr

def ByteOrder.ofByte? (b : Byte) : Option ByteOrder :=
  if b = 1 then some .little else if b = 2 then some .big else none

def ofLittleEndian (bs : List Byte) : Nat := bs.foldr (fun b n => b.toNat + 256 * n) 0

def number? (file : Array Byte) (order : ByteOrder) (offset size : Nat) : Option Nat :=
  if offset + size ≤ file.size then
    let bs := (file.extract offset (offset + size)).toList
    some (match order with
      | .little => ofLittleEndian bs
      | .big => ofLittleEndian bs.reverse)
  else none

structure ProgramHeader where
  type : Nat
  flags : Nat
  offset : Nat
  address : Nat
  fileSize : Nat
  memorySize : Nat
  deriving DecidableEq, Repr

namespace ProgramHeader

def isLoad (h : ProgramHeader) : Bool := h.type == 1

def writable (h : ProgramHeader) : Bool := h.flags / 2 % 2 == 1

def stop (h : ProgramHeader) : Nat := h.address + h.memorySize

def size (wide : Bool) : Nat := if wide then 56 else 32

def read? (file : Array Byte) (wide : Bool) (order : ByteOrder) (base : Nat) :
    Option ProgramHeader := do
  let field (offset size : Nat) : Option Nat := number? file order (base + offset) size
  if file.size < base + size wide then none
  if wide then
    let type ← field 0 4
    let flags ← field 4 4
    return ⟨type, flags, ← field 8 8, ← field 16 8, ← field 32 8, ← field 40 8⟩
  else
    let type ← field 0 4
    let flags ← field 24 4
    return ⟨type, flags, ← field 4 4, ← field 8 4, ← field 16 4, ← field 20 4⟩

end ProgramHeader

structure Header where
  wide : Bool
  order : ByteOrder
  machine : Nat
  entry : Nat
  programHeaders : List ProgramHeader
  deriving DecidableEq, Repr

namespace Header

def magic : List Byte := [0x7f, 0x45, 0x4c, 0x46]

def wideOfByte? (b : Byte) : Option Bool :=
  if b = 1 then some false else if b = 2 then some true else none

/-- Reads the file header and all program headers. There is no value if the file does not begin as an
ELF file does, or is too short for its headers. -/
def read? (file : Array Byte) : Option Header := do
  if file.size < 16 ∨ (file.extract 0 4).toList ≠ magic then none
  let wide ← wideOfByte? (← file[4]?)
  let order ← ByteOrder.ofByte? (← file[5]?)
  if file.size < (if wide then 64 else 52) then none
  let machine ← number? file order 18 2
  let entry ← number? file order 24 (if wide then 8 else 4)
  let base ← if wide then number? file order 32 8 else number? file order 28 4
  let count ← if wide then number? file order 56 2 else number? file order 44 2
  let programHeaders ← (List.range count).mapM fun i =>
    ProgramHeader.read? file wide order (base + i * ProgramHeader.size wide)
  return { wide, order, machine, entry, programHeaders }

end Header

end Hart.Executable
