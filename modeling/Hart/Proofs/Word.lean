import Hart.Word
import Mathlib

namespace Hart

theorem toNat_append_eq (x : BitVec m) (y : BitVec n) :
    (x ++ y).toNat = x.toNat * 2 ^ n + y.toNat := by
  rw [BitVec.toNat_append, ← Nat.shiftLeft_add_eq_or_of_lt y.isLt, Nat.shiftLeft_eq]

theorem getLsbD_signExtend {v : Word} {n i : Nat} (h : 0 < n) (hi : i < 32) :
    (signExtend v n).getLsbD i = v.getLsbD (min i (n - 1)) := by
  rw [signExtend, BitVec.getLsbD_signExtend, BitVec.getLsbD_setWidth]
  by_cases hn : i < n
  · simp [hn, hi, show min i (n - 1) = i by omega]
  · rw [BitVec.msb_eq_getLsbD_last, BitVec.getLsbD_setWidth]
    simp [hn, hi, h, show min i (n - 1) = n - 1 by omega]

theorem toInt_signExtend (v : Word) {n : Nat} (h : n ≤ 32) :
    (signExtend v n).toInt = v.toInt.bmod (2 ^ n) := by
  rw [signExtend, BitVec.toInt_signExtend_of_le h, BitVec.toInt_setWidth, BitVec.toInt_eq_toNat_bmod,
    Int.bmod_bmod_of_dvd (Nat.pow_dvd_pow 2 h)]

theorem signExtend_signExtend (v : Word) {n : Nat} (h : n ≤ 32) :
    signExtend (signExtend v n) n = signExtend v n := by
  rw [← BitVec.toInt_inj, toInt_signExtend _ h, toInt_signExtend _ h, Int.bmod_bmod]

theorem toInt_modEq_toNat {w n : Nat} (v : BitVec w) (h : n ≤ w) : v.toInt ≡ v.toNat [ZMOD 2 ^ n] := by
  have hw : v.toInt ≡ v.toNat [ZMOD (2 ^ w : Nat)] := by
    rw [Int.ModEq, BitVec.toInt_eq_toNat_bmod, Int.bmod_emod]
  push_cast at hw
  exact hw.of_dvd (pow_dvd_pow 2 h)

theorem toInt_signExtend_eq_iff (v : Word) {n : Nat} (h0 : 0 < n) (h : n ≤ 32) (z : Int) :
    (signExtend v n).toInt = z ↔
      (-2 ^ (n - 1) ≤ z ∧ z < 2 ^ (n - 1)) ∧ z ≡ v.toNat [ZMOD 2 ^ n] := by
  have hp : ((2 ^ n : Nat) : Int) = 2 * 2 ^ (n - 1) := by
    rw [← Nat.sub_add_cancel h0, Nat.pow_succ, Nat.add_sub_cancel]
    push_cast
    ring
  have hv : ((2 ^ n : Nat) : Int) ∣ z - v.toInt ↔ z ≡ v.toNat [ZMOD 2 ^ n] := by
    have hmod := toInt_modEq_toNat v h
    push_cast
    rw [← Int.modEq_iff_dvd]
    exact ⟨fun e => e.symm.trans hmod, fun e => hmod.trans e.symm⟩
  rw [toInt_signExtend v h, Int.bmod_eq_iff (Nat.two_pow_pos n), hv, hp, and_assoc]
  constructor
  · rintro ⟨hlow, hhigh, hz⟩
    exact ⟨by omega, by omega, hz⟩
  · rintro ⟨hlow, hhigh, hz⟩
    exact ⟨by omega, by omega, hz⟩

theorem signExtend_eq_self_iff {v : Word} {n : Nat} (h0 : 0 < n) (h : n ≤ 32) :
    signExtend v n = v ↔ -2 ^ (n - 1) ≤ v.toInt ∧ v.toInt < 2 ^ (n - 1) := by
  rw [← BitVec.toInt_inj, toInt_signExtend_eq_iff v h0 h, and_iff_left (toInt_modEq_toNat v h)]

theorem fitsSigned_iff {v : Int} {n : Nat} :
    fitsSigned v n = true ↔ -2 ^ (n - 1) ≤ v ∧ v < 2 ^ (n - 1) := by
  rw [fitsSigned, Bool.and_eq_true, decide_eq_true_eq, decide_eq_true_eq]
  rfl

theorem fitsUnsigned_iff {v : Int} {n : Nat} : fitsUnsigned v n = true ↔ 0 ≤ v ∧ v < 2 ^ n := by
  rw [fitsUnsigned, Bool.and_eq_true, decide_eq_true_eq, decide_eq_true_eq]
  rfl

theorem toInt_emod_two (v : Word) : v.toInt % 2 = 0 ↔ v.getLsbD 0 = false := by
  rw [BitVec.getLsbD, Nat.testBit_zero, BitVec.toInt_eq_toNat_cond, decide_eq_false_iff_not]
  split <;> omega

theorem two_dvd_add {a b : Word} (ha : 2 ∣ a.toNat) (hb : 2 ∣ b.toNat) : 2 ∣ (a + b).toNat := by
  rw [BitVec.toNat_add]
  omega

theorem two_dvd_of_toInt {v : Word} (h : v.toInt % 2 = 0) : 2 ∣ v.toNat := by
  rw [BitVec.toInt_eq_toNat_cond] at h
  split at h <;> omega

theorem and_not_one_eq_self_iff {v : Word} : v &&& ~~~1#32 = v ↔ v.toInt % 2 = 0 := by
  rw [toInt_emod_two]
  constructor
  · intro h
    rw [← h, BitVec.getLsbD_and, BitVec.getLsbD_not, BitVec.getLsbD_one]
    exact Bool.and_false _
  · intro h
    apply BitVec.eq_of_getLsbD_eq
    intro i hi
    rw [BitVec.getLsbD_and, BitVec.getLsbD_not, BitVec.getLsbD_one]
    cases i with
    | zero => rw [h, Bool.false_and]
    | succ i => simp [hi]

theorem toNat_and_not_one (v : Word) : (v &&& ~~~1#32).toNat = v.toNat / 2 * 2 := by
  have h : (v &&& ~~~1#32) = (v >>> 1) <<< 1 := by
    apply BitVec.eq_of_getLsbD_eq
    intro i hi
    rw [BitVec.getLsbD_and, BitVec.getLsbD_not, BitVec.getLsbD_one, BitVec.getLsbD_shiftLeft,
      BitVec.getLsbD_ushiftRight]
    cases i with
    | zero => simp
    | succ i => simp [hi, Nat.add_comm 1 i]
  have hlt := v.isLt
  rw [h, BitVec.toNat_shiftLeft, BitVec.toNat_ushiftRight, Nat.shiftLeft_eq, Nat.shiftRight_one,
    Nat.pow_one, Nat.mod_eq_of_lt (by omega)]

end Hart
