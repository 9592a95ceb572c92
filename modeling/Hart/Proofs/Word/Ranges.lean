import Hart.Word
import Mathlib

/-! Ranges of bits as parts of a word. What is put into a range is found there, up to the width of the range, and all
other bits stay. The steps behind a look into a range and a change of it, which must neither shift by the whole width
of the word nor go below zero, always give a value. -/

namespace Hart

variable {w n : Nat}

def shiftLeft? (v : BitVec w) (n : Nat) : Option (BitVec w) := if n < w then some (v <<< n) else none

def shiftRight? (v : BitVec w) (n : Nat) : Option (BitVec w) := if n < w then some (v >>> n) else none

def minus? (v x : BitVec w) : Option (BitVec w) := if x ≤ v then some (v - x) else none

def lowMask? (w n : Nat) : Option (BitVec w) :=
  if w ≤ n then some (~~~0#w) else do
    let power ← shiftLeft? 1#w n
    minus? power 1#w

theorem lowMask?_eq (w n : Nat) : lowMask? w n = some ((BitVec.allOnes n).setWidth w) := by
  rw [lowMask?]
  split
  · next h =>
    congr 1
    apply BitVec.eq_of_getLsbD_eq
    intro i hi
    simp [hi, show i < n by omega]
  · next h =>
    -- The power has its bit below the width, so that one can be taken from it.
    have hn : n < w := Nat.lt_of_not_le h
    have hpower : (1#w <<< n).toNat = 2 ^ n := BitVec.toNat_twoPow_of_lt hn
    have hone : (1#w).toNat = 1 :=
      Nat.mod_eq_of_lt (Nat.one_lt_two_pow (Nat.ne_of_gt (Nat.zero_lt_of_lt hn)))
    have hle : 1#w ≤ 1#w <<< n := by
      rw [BitVec.le_def, hone, hpower]
      exact Nat.one_le_two_pow
    have hlt : 2 ^ n < 2 ^ w := Nat.pow_lt_pow_right (by decide) hn
    rw [shiftLeft?, if_pos hn, Option.bind_eq_bind, Option.bind_some, minus?, if_pos hle]
    congr 1
    rw [← BitVec.toNat_inj, BitVec.toNat_sub_of_le hle, hpower, hone, BitVec.toNat_setWidth, BitVec.toNat_allOnes,
      Nat.mod_eq_of_lt (by omega)]

namespace BitRange

def getSteps (r : BitRange) (v : BitVec w) : Option (BitVec w) := do
  guard (r.lo ≤ r.hi ∧ r.hi < w)
  let low ← shiftRight? v r.lo
  let ones ← lowMask? w (r.hi - r.lo + 1)
  return low &&& ones

def setSteps (r : BitRange) (v x : BitVec w) : Option (BitVec w) := do
  guard (r.lo ≤ r.hi ∧ r.hi < w)
  let ones ← lowMask? w (r.hi - r.lo + 1)
  let cleared ← shiftLeft? ones r.lo
  let filled ← shiftLeft? (x &&& ones) r.lo
  return (v &&& ~~~cleared) ||| filled

def Disjoint (r s : BitRange) : Prop := r.hi < s.lo ∨ s.hi < r.lo

variable {r s : BitRange}

theorem Disjoint.not_mem (h : r.Disjoint s) {i : Nat} (hi : s.lo ≤ i ∧ i ≤ s.hi) : ¬ (r.lo ≤ i ∧ i ≤ r.hi) := by
  rcases h with h | h <;> omega

theorem lo_add_mem_iff (r : BitRange) (i : Nat) : r.lo ≤ r.lo + i ∧ r.lo + i ≤ r.hi ↔ i < r.width := by
  have hr := r.lo_le_hi
  rw [width]
  omega

theorem toNat_get (r : BitRange) (v : BitVec w) :
    (r.get v).toNat = v.toNat / 2 ^ r.lo % 2 ^ r.width := by
  apply Nat.eq_of_testBit_eq
  intro i
  rw [Nat.testBit_mod_two_pow, Nat.testBit_div_two_pow, Nat.add_comm i]
  exact r.getLsbD_get v i

theorem toNat_get_set (hr : r.hi < w) (v x : BitVec w) :
    (r.get (r.set v x)).toNat = x.toNat % 2 ^ r.width := by
  apply Nat.eq_of_testBit_eq
  intro i
  rw [Nat.testBit_mod_two_pow]
  refine (r.getLsbD_get _ i).trans ?_
  rw [getLsbD_set]
  by_cases hi : i < r.width
  · have hmem := (r.lo_add_mem_iff i).2 hi
    rw [if_pos hmem, Nat.add_sub_cancel_left, decide_eq_true (show r.lo + i < w by omega), Bool.true_and]
    rfl
  · rw [decide_eq_false hi, Bool.false_and, Bool.false_and]

theorem set_get (r : BitRange) (v : BitVec w) : r.set v (r.get v) = v := by
  apply BitVec.eq_of_getLsbD_eq
  intro i hi
  rw [getLsbD_set]
  split
  · next hmem =>
    have hwidth := (r.lo_add_mem_iff (i - r.lo)).1 (by omega)
    rw [getLsbD_get, decide_eq_true hi, decide_eq_true hwidth, Bool.true_and, Bool.true_and,
      Nat.add_sub_cancel' hmem.1]
  · rfl

theorem set_set (r : BitRange) (v x y : BitVec w) : r.set (r.set v x) y = r.set v y := by
  apply BitVec.eq_of_getLsbD_eq
  intro i _
  rw [getLsbD_set, getLsbD_set, getLsbD_set]
  split
  · rfl
  · rfl

theorem Disjoint.get_set (h : r.Disjoint s) (v x : BitVec w) : s.get (r.set v x) = s.get v := by
  apply BitVec.eq_of_getLsbD_eq
  intro i _
  rw [getLsbD_get, getLsbD_get, getLsbD_set]
  by_cases hi : i < s.width
  · rw [if_neg (h.not_mem ((s.lo_add_mem_iff i).2 hi))]
  · rw [decide_eq_false hi, Bool.false_and, Bool.false_and]

theorem Disjoint.set_comm (h : r.Disjoint s) (v x y : BitVec w) :
    s.set (r.set v x) y = r.set (s.set v y) x := by
  apply BitVec.eq_of_getLsbD_eq
  intro i _
  rw [getLsbD_set, getLsbD_set, getLsbD_set, getLsbD_set]
  by_cases hs : s.lo ≤ i ∧ i ≤ s.hi
  · rw [if_pos hs, if_pos hs, if_neg (h.not_mem hs)]
  · rw [if_neg hs, if_neg hs]

theorem getSteps_eq (hr : r.hi < w) (v : BitVec w) : r.getSteps v = some (r.get v) := by
  have hlo : r.lo < w := Nat.lt_of_le_of_lt r.lo_le_hi hr
  simp [getSteps, r.lo_le_hi, hr, shiftRight?, hlo, lowMask?_eq, get, mask, width]

theorem setSteps_eq (hr : r.hi < w) (v x : BitVec w) : r.setSteps v x = some (r.set v x) := by
  have hlo : r.lo < w := Nat.lt_of_le_of_lt r.lo_le_hi hr
  simp [setSteps, r.lo_le_hi, hr, shiftLeft?, hlo, lowMask?_eq, set, mask, width]

/-- A range inside a word is a part of it: what is put there is found there, cut to the width of the range; to put
back what is there changes nothing, and of two changes the second one stands. A change of one range is not seen in
another and can be exchanged with a change there. What is found is a number cut out of the number of the word, and
all steps to it have a value. -/
theorem lens_laws (hr : r.hi < w) (v x y : BitVec w) :
    (r.get (r.set v x)).toNat = x.toNat % 2 ^ (r.hi - r.lo + 1) ∧
    r.set v (r.get v) = v ∧
    r.set (r.set v x) y = r.set v y ∧
    (∀ s, r.Disjoint s → s.get (r.set v x) = s.get v ∧ s.set (r.set v x) y = r.set (s.set v y) x) ∧
    (r.get v).toNat = v.toNat / 2 ^ r.lo % 2 ^ (r.hi - r.lo + 1) ∧
    r.getSteps v = some (r.get v) ∧ r.setSteps v x = some (r.set v x) :=
  ⟨toNat_get_set hr v x, r.set_get v, r.set_set v x y, fun _ h => ⟨h.get_set v x, h.set_comm v x y⟩,
    r.toNat_get v, getSteps_eq hr v, setSteps_eq hr v x⟩

theorem lens_laws_whole :
    let whole : BitRange := { lo := 0, hi := 63 }
    let top : BitRange := { lo := 7, hi := 7 }
    let low : BitRange := { lo := 0, hi := 6 }
    whole.hi < 64 ∧ whole.getSteps (0xfedcba9876543210#64) = some (0xfedcba9876543210#64) ∧
      top.hi < 8 ∧ top.Disjoint low ∧ (top.get (top.set 0x15#8 0xff#8)).toNat = 1 ∧
      low.get (top.set 0x15#8 0xff#8) = 0x15#8 := by
  intro whole top low
  have hdisjoint : top.Disjoint low := .inr (by decide)
  obtain ⟨_, _, _, _, _, hsteps, _⟩ :=
    lens_laws (show whole.hi < 64 by decide) (0xfedcba9876543210#64) 0 0
  obtain ⟨htop, _, _, hlow, _⟩ := lens_laws (show top.hi < 8 by decide) 0x15#8 0xff#8 0
  have hcut : (0xff#8).toNat % 2 ^ (top.hi - top.lo + 1) = 1 := by decide
  have hget : low.get 0x15#8 = 0x15#8 := by decide
  exact ⟨by decide, hsteps.trans (congrArg some (by decide +kernel)), by decide, hdisjoint, htop.trans hcut,
    (hlow low hdisjoint).1.trans hget⟩

end BitRange

end Hart
