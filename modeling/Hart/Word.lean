namespace Hart

abbrev Byte := BitVec 8

abbrev Word := BitVec 32

/-- The bits `lo … hi` of a word, both ends included. -/
structure BitRange where
  lo : Nat
  hi : Nat
  lo_le_hi : lo ≤ hi := by decide

namespace BitRange

def width (r : BitRange) : Nat := r.hi - r.lo + 1

def mask (r : BitRange) (w : Nat) : BitVec w := (BitVec.allOnes r.width).setWidth w

def get (r : BitRange) (v : BitVec w) : BitVec w := (v >>> r.lo) &&& r.mask w

def set (r : BitRange) (v x : BitVec w) : BitVec w :=
  (v &&& ~~~(r.mask w <<< r.lo)) ||| ((x &&& r.mask w) <<< r.lo)

@[simp] theorem getElem_mask (r : BitRange) {w i : Nat} (h : i < w) :
    (r.mask w)[i] = decide (i < r.width) := by
  simp [mask]

theorem getLsbD_get (r : BitRange) (v : BitVec w) (i : Nat) :
    (r.get v).getLsbD i = (decide (i < r.width) && v.getLsbD (r.lo + i)) := by
  by_cases h : i < w
  · simp [get, h, Bool.and_comm]
  · simp [get, BitVec.getLsbD_of_ge v (r.lo + i) (by omega)]

theorem getLsbD_set (r : BitRange) (v x : BitVec w) (i : Nat) :
    (r.set v x).getLsbD i =
      if r.lo ≤ i ∧ i ≤ r.hi then decide (i < w) && x.getLsbD (i - r.lo) else v.getLsbD i := by
  have hr := r.lo_le_hi
  have hw : i - r.lo < r.width ↔ i ≤ r.hi := by simp only [width]; omega
  by_cases h : i < w
  · by_cases hlo : r.lo ≤ i
    · simp [set, h, hlo, hw, show i - r.lo < w by omega, show ¬ i < r.lo by omega]
      by_cases hhi : i ≤ r.hi <;> simp [hhi]
    · simp [set, h, hlo, show i < r.lo by omega]
  · simp [set, h, BitVec.getLsbD_of_ge v i (by omega)]

end BitRange

def signExtend (pattern : Word) (n : Nat) : Word := (pattern.setWidth n).signExtend 32

def fitsSigned (v : Int) (n : Nat) : Bool :=
  decide (-Int.pow 2 (n - 1) ≤ v) && decide (v < Int.pow 2 (n - 1))

def fitsUnsigned (v : Int) (n : Nat) : Bool :=
  decide (0 ≤ v) && decide (v < Int.pow 2 n)

end Hart
