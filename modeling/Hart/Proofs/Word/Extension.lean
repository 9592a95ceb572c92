import Hart.Proofs.Word
import Hart.Proofs.Word.Ranges
import Mathlib

namespace Hart

variable {w n : Nat}

def signedShiftRight? (v : BitVec w) (n : Nat) : Option (BitVec w) :=
  if n < w then some (v.sshiftRight n) else none

def opposite? (v : BitVec w) : Option (BitVec w) := if v.negOverflow then none else some (-v)

def signedMinus? (v x : BitVec w) : Option (BitVec w) := if v.ssubOverflow x then none else some (v - x)

def signExtendSteps (pattern : Word) (n : Nat) : Option Word := do
  guard (1 ≤ n ∧ n ≤ 32)
  let top ← shiftLeft? pattern (32 - n)
  signedShiftRight? top (32 - n)

def fitsSignedSteps (v : BitVec 64) (n : Nat) : Option Bool := do
  guard (1 ≤ n)
  let power ← shiftLeft? 1#64 (n - 1)
  let low ← opposite? power
  let high ← signedMinus? power 1#64
  return low.sle v && v.sle high

def fitsUnsignedSteps (v : BitVec 64) (n : Nat) : Option Bool :=
  if (0#64).sle v then do
    let power ← shiftLeft? 1#64 n
    return v.slt power
  else some false

theorem signExtend_congr {p q : Word} (h : ∀ i < n, q.getLsbD i = p.getLsbD i) :
    signExtend q n = signExtend p n := by
  have hlow : q.setWidth n = p.setWidth n := by
    apply BitVec.eq_of_getLsbD_eq
    intro i hi
    rw [BitVec.getLsbD_setWidth, BitVec.getLsbD_setWidth, h i hi]
  rw [signExtend, signExtend, hlow]

theorem sshiftRight_shiftLeft (p : Word) (h1 : 1 ≤ n) (h : n ≤ 32) :
    (p <<< (32 - n)).sshiftRight (32 - n) = signExtend p n := by
  apply BitVec.eq_of_getLsbD_eq
  intro i hi
  rw [getLsbD_signExtend h1 hi, BitVec.getLsbD_sshiftRight, BitVec.msb_eq_getLsbD_last,
    BitVec.getLsbD_shiftLeft, BitVec.getLsbD_shiftLeft]
  by_cases hn : i < n
  · simp [hi, show 32 - n + i < 32 by omega, show min i (n - 1) = i by omega]
  · simp [show ¬ 32 ≤ i by omega, show ¬ 32 - n + i < 32 by omega, show min i (n - 1) = n - 1 by omega,
      show ¬ 31 < 32 - n by omega, show 31 - (32 - n) = n - 1 by omega]

theorem signExtendSteps_eq (p : Word) (h1 : 1 ≤ n) (h : n ≤ 32) :
    signExtendSteps p n = some (signExtend p n) := by
  have hshift : 32 - n < 32 := by omega
  rw [signExtendSteps, guard, if_pos ⟨h1, h⟩, shiftLeft?, if_pos hshift]
  simp only [Option.pure_def, Option.bind_eq_bind, Option.bind_some]
  rw [signedShiftRight?, if_pos hshift, sshiftRight_shiftLeft p h1 h]

theorem toInt_one_shiftLeft (h : n < 63) : (1#64 <<< n).toInt = 2 ^ n := by
  have hpower := BitVec.toInt_twoPow (w := 64) (i := n)
  rwa [if_neg (by omega), if_neg (by omega)] at hpower

theorem bounds_of_power (h : n < 63) :
    ∃ low high, opposite? (1#64 <<< n) = some low ∧ signedMinus? (1#64 <<< n) 1#64 = some high ∧
      low.toInt = -2 ^ n ∧ high.toInt = 2 ^ n - 1 := by
  have hpower := toInt_one_shiftLeft h
  have hpos : 0 < (2 : Int) ^ n := by positivity
  have hlt := (1#64 <<< n).toInt_lt
  have hone : (1#64).toInt = 1 := by decide
  have hneg : ¬ (1#64 <<< n).negOverflow = true := by
    rw [BitVec.negOverflow, hpower, beq_iff_eq]
    omega
  have hsub : ¬ (1#64 <<< n).ssubOverflow 1#64 = true := by
    rw [BitVec.ssubOverflow, hpower, hone, Bool.or_eq_true, decide_eq_true_eq, decide_eq_true_eq]
    omega
  refine ⟨_, _, if_neg hneg, if_neg hsub, ?_, ?_⟩
  · rw [BitVec.toInt_neg_of_not_negOverflow hneg, hpower]
  · rw [BitVec.toInt_sub_of_not_ssubOverflow hsub, hpower, hone]

theorem fitsSignedSteps_eq (h1 : 1 ≤ n) (h : n ≤ 62) (v : BitVec 64) :
    fitsSignedSteps v n = some (fitsSigned v.toInt n) := by
  obtain ⟨low, high, hlow, hhigh, hlowInt, hhighInt⟩ := bounds_of_power (show n - 1 < 63 by omega)
  have hpower : shiftLeft? 1#64 (n - 1) = some (1#64 <<< (n - 1)) := if_pos (by omega)
  have hiff : (low.sle v && v.sle high) = true ↔ fitsSigned v.toInt n = true := by
    rw [Bool.and_eq_true, BitVec.sle_iff_toInt_le, BitVec.sle_iff_toInt_le, hlowInt, hhighInt, fitsSigned_iff,
      Int.le_sub_one_iff]
  rw [← Bool.eq_iff_iff.2 hiff]
  simp only [fitsSignedSteps, guard, if_pos h1, hpower, hlow, hhigh, Option.pure_def, Option.bind_eq_bind,
    Option.bind_some]

theorem fitsUnsignedSteps_eq (h : n ≤ 62) (v : BitVec 64) :
    fitsUnsignedSteps v n = some (fitsUnsigned v.toInt n) := by
  have hpower : shiftLeft? 1#64 n = some (1#64 <<< n) := if_pos (by omega)
  have hsign : (0#64).sle v = true ↔ 0 ≤ v.toInt := by
    rw [BitVec.sle_iff_toInt_le, BitVec.toInt_zero]
  have htop : v.slt (1#64 <<< n) = true ↔ v.toInt < 2 ^ n := by
    rw [BitVec.slt_iff_toInt_lt, toInt_one_shiftLeft (by omega)]
  rw [fitsUnsignedSteps, hpower]
  by_cases hv : (0#64).sle v = true
  · rw [if_pos hv, Option.bind_eq_bind, Option.bind_some, Option.pure_def, Option.some_inj, Bool.eq_iff_iff, htop,
      fitsUnsigned_iff, and_iff_right (hsign.1 hv)]
  · rw [if_neg hv, Option.some_inj, eq_comm, Bool.eq_false_iff, ne_eq, fitsUnsigned_iff]
    exact fun hfits => hv (hsign.2 hfits.1)

theorem toInt_modEq_setWidth (h : n ≤ 32) (v : BitVec 64) : v.toInt ≡ (v.setWidth 32).toNat [ZMOD 2 ^ n] := by
  have hcut : ((v.setWidth 32).toNat : Int) ≡ v.toNat [ZMOD 2 ^ 32] := by
    rw [BitVec.toNat_setWidth]
    push_cast
    exact Int.mod_modEq _ _
  exact (toInt_modEq_toNat v (by omega)).trans (hcut.of_dvd (pow_dvd_pow 2 h)).symm

theorem fitsSigned_iff_signExtend (h1 : 1 ≤ n) (h : n ≤ 32) (v : BitVec 64) :
    fitsSigned v.toInt n = true ↔ (signExtend (v.setWidth 32) n).toInt = v.toInt := by
  rw [toInt_signExtend_eq_iff _ h1 h, fitsSigned_iff, and_iff_left (toInt_modEq_setWidth h v)]

/-- The extension of a pattern is the one number of its width that leaves the same rest as the pattern; the bits above
are ignored. The tests of a number of 64 bits are exact, and a number fits with a sign exactly if the extension of its
low bits is the number again. No step of any of them leaves its word. -/
theorem extension_exact (h1 : 1 ≤ n) :
    (n ≤ 32 → ∀ p : Word,
      (∀ z : Int, (signExtend p n).toInt = z ↔
        (-2 ^ (n - 1) ≤ z ∧ z < 2 ^ (n - 1)) ∧ z ≡ p.toNat [ZMOD 2 ^ n]) ∧
      (∀ q : Word, (∀ i < n, q.getLsbD i = p.getLsbD i) → signExtend q n = signExtend p n) ∧
      signExtendSteps p n = some (signExtend p n)) ∧
    (n ≤ 62 → ∀ v : BitVec 64,
      (fitsSigned v.toInt n = true ↔ -2 ^ (n - 1) ≤ v.toInt ∧ v.toInt < 2 ^ (n - 1)) ∧
      (fitsUnsigned v.toInt n = true ↔ 0 ≤ v.toInt ∧ v.toInt < 2 ^ n) ∧
      fitsSignedSteps v n = some (fitsSigned v.toInt n) ∧
      fitsUnsignedSteps v n = some (fitsUnsigned v.toInt n)) ∧
    (n ≤ 32 → ∀ v : BitVec 64,
      fitsSigned v.toInt n = true ↔ (signExtend (v.setWidth 32) n).toInt = v.toInt) :=
  ⟨fun h p => ⟨toInt_signExtend_eq_iff p h1 h, fun _ hq => signExtend_congr hq, signExtendSteps_eq p h1 h⟩,
    fun h v => ⟨fitsSigned_iff, fitsUnsigned_iff, fitsSignedSteps_eq h1 h v, fitsUnsignedSteps_eq h v⟩,
    fun h v => fitsSigned_iff_signExtend h1 h v⟩

theorem extension_exact_bounds :
    1 ≤ 1 ∧ (signExtend 0xf5 1).toInt = -1 ∧ signExtendSteps 0xf5 1 = some (-1#32) ∧
      1 ≤ 32 ∧ (signExtend 0x80000000 32).toInt = -2 ^ 31 ∧ ¬ fitsSigned (0x80000000#64).toInt 32 = true ∧
      1 ≤ 62 ∧ fitsSignedSteps (-0x2000000000000000#64) 62 = some true := by
  obtain ⟨hone, _, _⟩ := extension_exact (show 1 ≤ 1 by decide)
  obtain ⟨hword, _, hcomes⟩ := extension_exact (show 1 ≤ 32 by decide)
  obtain ⟨_, hlong, _⟩ := extension_exact (show 1 ≤ 62 by decide)
  obtain ⟨hsign, _, hsteps⟩ := hone (by decide) 0xf5
  obtain ⟨hfits, _, hleast, _⟩ := hlong (by decide) (-0x2000000000000000#64)
  have hbit : signExtend 0xf5 1 = -1#32 := by decide
  have hback : (signExtend 0x80000000 32).toInt = -2 ^ 31 :=
    ((hword (by decide) 0x80000000).1 _).2 ⟨by decide, by decide⟩
  have hlow : (0x80000000#64).setWidth 32 = 0x80000000#32 := by decide
  have hmost : ¬ fitsSigned (0x80000000#64).toInt 32 = true := by
    rw [hcomes (by decide), hlow]
    exact fun h => absurd (hback.symm.trans h) (by decide)
  refine ⟨by decide, (hsign _).2 ⟨by decide, by decide⟩, hsteps.trans (congrArg some hbit), by decide, hback, hmost,
    by decide, hleast.trans (congrArg some (hfits.2 ?_))⟩
  decide

end Hart
