import Hart.Text.Printing
import Hart.Word

namespace Hart

abbrev Register := BitVec 5

namespace Register

def abiNames : List String :=
  ["zero", "ra", "sp", "gp", "tp", "t0", "t1", "t2", "s0", "s1", "a0", "a1", "a2", "a3", "a4", "a5",
    "a6", "a7", "s2", "s3", "s4", "s5", "s6", "s7", "s8", "s9", "s10", "s11", "t3", "t4", "t5", "t6"]

def abiName (r : Register) : String := abiNames.getD r.toNat ""

def text (r : Register) : String := "x" ++ Numeral.decimal r.toNat

def all : List Register := (List.range 32).map (BitVec.ofNat 5)

def ofNat? (n : Nat) : Option Register := if n < 32 then some (BitVec.ofNat 5 n) else none

def lookup? (name : String) : Option Register :=
  if name = "fp" then some 8
  else all.find? fun r => r.text = name || r.abiName = name

end Register

structure RegisterFile where
  values : Vector Word 32
  deriving DecidableEq

namespace RegisterFile

def zero : RegisterFile := ⟨Vector.replicate 32 0⟩

def read (f : RegisterFile) (r : Register) : Word :=
  have := r.isLt
  f.values[r.toNat]

def write (f : RegisterFile) (r : Register) (v : Word) : RegisterFile :=
  if r = 0#5 then f else ⟨f.values.set r.toNat v r.isLt⟩

def withStackPointer (v : Word) : RegisterFile := zero.write 2 v

theorem read_write (f : RegisterFile) (r s : Register) (v : Word) :
    (f.write r v).read s = if r ≠ 0#5 ∧ r = s then v else f.read s := by
  by_cases h0 : r = 0#5
  · simp [write, h0]
  · by_cases hs : r = s
    · subst hs; simp [write, read, h0]
    · have : r.toNat ≠ s.toNat := fun h => hs (BitVec.eq_of_toNat_eq h)
      simp [write, read, h0, hs, this]

@[simp] theorem read_zero (r : Register) : zero.read r = 0 := by
  simp [zero, read]

def text (f : RegisterFile) : String :=
  "[ " ++ String.join (Register.all.map fun r =>
    "#" ++ Numeral.decimal r.toNat ++ "=" ++ Numeral.hex (f.read r).toNat ++ ", ") ++ "]"

end RegisterFile

end Hart
