import Hart.Text.Printing
import Hart.Word

namespace Hart

inductive Width
  | byte
  | half
  | word
  deriving DecidableEq, Repr

namespace Width

def bytes : Width → Nat
  | .byte => 1
  | .half => 2
  | .word => 4

def bits (w : Width) : Nat := 8 * w.bytes

def text (w : Width) : String := Numeral.decimal w.bits ++ "-bit"

def combine (b : Nat → Byte) : Width → Word
  | .byte => (b 0).setWidth 32
  | .half => (b 1 ++ b 0).setWidth 32
  | .word => b 3 ++ b 2 ++ b 1 ++ b 0

end Width

def Word.byte (v : Word) (i : Nat) : Byte := v.extractLsb' (8 * i) 8

inductive Access
  | read
  | write
  deriving DecidableEq, Repr

def Access.text : Access → String
  | .read => "read"
  | .write => "write"

inductive MemoryError
  | outOfRange (address : Word)
  | readOnly (address : Word)
  | guardPage (address : Word) (access : Access)
  | pageBoundary (address : Word) (width : Width)
  | imageTooLarge (length pageSize : Nat)
  | addressSpaceExhausted
  deriving DecidableEq

namespace MemoryError

def isFatalTrap : MemoryError → Bool
  | .guardPage .. => true
  | _ => false

def message : MemoryError → String
  | .outOfRange a => "address " ++ Numeral.address a.toNat ++ " is not inside any page"
  | .readOnly a => "write to read-only page at " ++ Numeral.address a.toNat
  | .guardPage a access => access.text ++ " of guard page at " ++ Numeral.address a.toNat
  | .pageBoundary a width =>
    width.text ++ " write at " ++ Numeral.address a.toNat ++
      " runs past the end of its page storage"
  | .imageTooLarge length pageSize =>
    Numeral.decimal length ++ " bytes do not fit in a page of " ++ Numeral.decimal pageSize ++
      " bytes"
  | .addressSpaceExhausted => "no address space left for another page"

end MemoryError

end Hart
