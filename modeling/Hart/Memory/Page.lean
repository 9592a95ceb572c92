import Hart.Memory.ByteStore

namespace Hart

structure Rights where
  readable : Bool
  writable : Bool
  deriving DecidableEq

def Rights.text (r : Rights) : String :=
  (if r.readable then "r" else "-") ++ (if r.writable then "w" else "-")

/-- What backs a page. RAM and images may be shorter than their page. A zero page drops what is written
to it, and a guard page allows no access at all. -/
inductive Storage
  | ram (bytes : ByteStore)
  | image (bytes : ByteStore)
  | zero
  | guard

namespace Storage

def zeroedRam (size : Nat) : Storage := .ram (.zeroed size)

def backing? : Storage → Option ByteStore
  | .ram s => some s
  | .image s => some s
  | .zero => none
  | .guard => none

def length (s : Storage) : Nat := (s.backing?.map ByteStore.size).getD 0

def readable : Storage → Bool
  | .guard => false
  | _ => true

def writable : Storage → Bool
  | .ram _ => true
  | .zero => true
  | _ => false

def kind : Storage → String
  | .ram _ => "ram"
  | .image _ => "read-only"
  | .zero => "zero"
  | .guard => "guard"

def rights (s : Storage) : Rights := ⟨s.readable, s.writable⟩

def peek (s : Storage) (w : Width) (offset : Nat) (a : Word) : Except MemoryError Word :=
  match s with
  | .ram bytes => .ok (bytes.read w offset)
  | .image bytes => .ok (bytes.read w offset)
  | .zero => .ok 0
  | .guard => .error (.guardPage a .read)

def poke (s : Storage) (w : Width) (offset : Nat) (a v : Word) : Except MemoryError Storage :=
  match s with
  | .ram bytes =>
    match bytes.write? w offset v with
    | some bytes => .ok (.ram bytes)
    | none => .error (.pageBoundary a w)
  | .image _ => .error (.readOnly a)
  | .zero => .ok .zero
  | .guard => .error (.guardPage a .write)

end Storage

/-- The addresses from `start` up to `stop`, which is 2^32 for a page at the top of the space. A page
keeps the rights that its storage had when it was put there. -/
structure Page where
  start : Nat
  stop : Nat
  rights : Rights
  storage : Storage

namespace Page

def contains (p : Page) (a : Word) : Bool := decide (p.start ≤ a.toNat) && decide (a.toNat < p.stop)

def peek (p : Page) (w : Width) (a : Word) : Except MemoryError Word :=
  if p.contains a then p.storage.peek w (a.toNat - p.start) a else .error (.outOfRange a)

def poke (p : Page) (w : Width) (a v : Word) : Except MemoryError Page :=
  if p.contains a then
    match p.storage.poke w (a.toNat - p.start) a v with
    | .ok storage => .ok { p with storage }
    | .error e => .error e
  else .error (.outOfRange a)

def text (p : Page) : String :=
  Numeral.hex8 p.start ++ ".." ++ Numeral.hex8 p.stop ++ " " ++ p.rights.text ++ " " ++
    p.storage.kind

end Page

end Hart
