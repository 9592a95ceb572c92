import Hart.Proofs.Instruction.RoundTrip
import Hart.Proofs.Manual.Interpreter

namespace Hart.Manual

theorem field_toNat (w : Word) (lo n : Nat) : field w.toNat lo n = (w.extractLsb' lo n).toNat := by
  rw [field, BitVec.extractLsb'_toNat, Nat.shiftRight_eq_div_pow]

theorem signed_toNat {n : Nat} (h : 0 < n) (x : BitVec n) : signed n x.toNat = x.toInt := by
  obtain ⟨m, rfl⟩ : ∃ m, n = m + 1 := ⟨n - 1, by omega⟩
  rw [signed, BitVec.toInt_eq_toNat_cond, Nat.add_sub_cancel, Nat.pow_succ]
  push_cast
  split <;> split <;> omega

theorem toInt_signExtend_word {n : Nat} (h : 0 < n) (hn : n ≤ 32) (x : BitVec n) :
    (x.signExtend 32).toInt = signed n x.toNat := by
  rw [BitVec.toInt_signExtend_of_le hn, signed_toNat h]

theorem toNat_extractLsb (w : Word) (hi lo : Nat) :
    (w.extractLsb hi lo).toNat = field w.toNat lo (hi - lo + 1) :=
  (field_toNat w lo (hi - lo + 1)).symm

theorem ofNat_register (w : Word) (lo : Nat) :
    BitVec.ofNat 5 (register w.toNat lo) = w.extractLsb' lo 5 := by
  change BitVec.ofNat 5 (field w.toNat lo 5) = _
  rw [field_toNat, BitVec.ofNat_toNat, BitVec.setWidth_eq]

theorem immI_toNat (w : Word) : immI w.toNat = ((w.extractLsb 31 20).signExtend 32).toInt := by
  rw [toInt_signExtend_word (by decide) (by decide), toNat_extractLsb]
  rfl

theorem immS_toNat (w : Word) :
    immS w.toNat = ((w.extractLsb 31 25 ++ w.extractLsb 11 7).signExtend 32).toInt := by
  rw [toInt_signExtend_word (by decide) (by decide), toNat_append_eq, toNat_extractLsb,
    toNat_extractLsb]
  rfl

theorem immB_toNat (w : Word) : immB w.toNat =
    ((w.extractLsb 31 31 ++ w.extractLsb 7 7 ++ w.extractLsb 30 25 ++ w.extractLsb 11 8 ++
      0#1).signExtend 32).toInt := by
  rw [toInt_signExtend_word (by decide) (by decide), toNat_append_eq, toNat_append_eq,
    toNat_append_eq, toNat_append_eq, BitVec.toNat_zero]
  simp only [toNat_extractLsb, Nat.reduceSub, Nat.reduceAdd, immB]
  congr 1
  omega

theorem immJ_toNat (w : Word) : immJ w.toNat =
    ((w.extractLsb 31 31 ++ w.extractLsb 19 12 ++ w.extractLsb 20 20 ++ w.extractLsb 30 21 ++
      0#1).signExtend 32).toInt := by
  rw [toInt_signExtend_word (by decide) (by decide), toNat_append_eq, toNat_append_eq,
    toNat_append_eq, toNat_append_eq, BitVec.toNat_zero]
  simp only [toNat_extractLsb, Nat.reduceSub, Nat.reduceAdd, immJ]
  congr 1
  omega

theorem immU_toNat (w : Word) : immU w.toNat = (w.extractLsb 31 12 ++ 0#12).toNat := by
  rw [toNat_append_eq, toNat_extractLsb, BitVec.toNat_zero, Nat.add_zero]
  rfl

theorem shamt_toNat (w : Word) :
    shamt w.toNat = ((w.extractLsb 31 20).signExtend 32 &&& 0x1f).toNat := by
  have h : (w.extractLsb 31 20).signExtend 32 &&& 0x1f = (w.extractLsb 24 20).setWidth 32 := by
    apply BitVec.eq_of_getLsbD_eq
    intro i hi
    rw [BitVec.getLsbD_and, Shape.getLsbD_shiftMask hi, BitVec.getLsbD_signExtend,
      BitVec.getLsbD_setWidth, BitVec.getLsbD_extractLsb, BitVec.getLsbD_extractLsb]
    grind
  rw [h, BitVec.toNat_setWidth_of_le (by decide), toNat_extractLsb]
  rfl

end Hart.Manual
