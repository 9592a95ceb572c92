import Hart.Proofs.Manual.Fields

namespace Hart

namespace Manual

theorem wrap_eq (v : Int) : wrap v = (BitVec.ofInt 32 v).toNat := by
  rw [wrap, BitVec.toNat_ofInt]
  rfl

@[simp] theorem wrap_toInt (v : Word) : wrap v.toInt = v.toNat := by
  rw [wrap_eq, BitVec.ofInt_toInt]

@[simp] theorem wrap_toNat (v : Word) : wrap (v.toNat : Int) = v.toNat := by
  rw [wrap_eq, BitVec.ofInt_natCast, BitVec.ofNat_toNat, BitVec.setWidth_eq]

theorem wrap_add (a b : Word) : wrap (a.toNat + b.toInt) = (a + b).toNat := by
  rw [wrap_eq, BitVec.ofInt_add, BitVec.ofInt_natCast, BitVec.ofInt_toInt, BitVec.ofNat_toNat,
    BitVec.setWidth_eq]

theorem signed_eq_toInt (v : Word) : signed 32 v.toNat = v.toInt := signed_toNat (by decide) v

end Manual

open Manual

namespace Operation

variable (a b : Word)

theorem toNat_add : (add.apply a b).toNat = wrap (a.toNat + b.toInt) := (wrap_add a b).symm

theorem toNat_slt : (slt.apply a b).toNat = if signed 32 a.toNat < b.toInt then 1 else 0 := by
  rw [apply, signed_eq_toInt, BitVec.slt_eq_decide]
  split <;> simp_all

theorem toNat_sltu : (sltu.apply a b).toNat = if a.toNat < wrap b.toInt then 1 else 0 := by
  rw [apply, wrap_toInt, BitVec.ult_eq_decide]
  split <;> simp_all

theorem toNat_xor : (xor.apply a b).toNat = a.toNat ^^^ wrap b.toInt := by
  rw [apply, wrap_toInt, BitVec.toNat_xor]

theorem toNat_or : (or.apply a b).toNat = a.toNat ||| wrap b.toInt := by
  rw [apply, wrap_toInt, BitVec.toNat_or]

theorem toNat_and : (and.apply a b).toNat = a.toNat &&& wrap b.toInt := by
  rw [apply, wrap_toInt, BitVec.toNat_and]

variable {b} (h : b.toNat < 32)
include h

theorem toNat_sll : (sll.apply a b).toNat = a.toNat * 2 ^ b.toNat % 2 ^ 32 := by
  rw [apply, Nat.mod_eq_of_lt h, BitVec.toNat_shiftLeft, Nat.shiftLeft_eq]

theorem toNat_srl : (srl.apply a b).toNat = a.toNat / 2 ^ b.toNat := by
  rw [apply, Nat.mod_eq_of_lt h, BitVec.toNat_ushiftRight, Nat.shiftRight_eq_div_pow]

theorem toNat_sra : (sra.apply a b).toNat = wrap (signed 32 a.toNat / 2 ^ b.toNat) := by
  rw [apply, Nat.mod_eq_of_lt h, ← wrap_toInt, BitVec.toInt_sshiftRight, Int.shiftRight_eq_div_pow,
    signed_eq_toInt]
  rfl

end Operation

namespace Condition

variable (a b : Word)

theorem holds_eq : eq.holds a b = true ↔ a.toNat = b.toNat := by
  rw [holds, beq_iff_eq, BitVec.toNat_inj]

theorem holds_ne : ne.holds a b = true ↔ a.toNat ≠ b.toNat := by
  rw [holds, bne_iff_ne, ne_eq, ne_eq, BitVec.toNat_inj]

theorem holds_lt : lt.holds a b = true ↔ signed 32 a.toNat < signed 32 b.toNat := by
  rw [holds, signed_eq_toInt, signed_eq_toInt, BitVec.slt_iff_toInt_lt]

theorem holds_ge : ge.holds a b = true ↔ signed 32 b.toNat ≤ signed 32 a.toNat := by
  rw [holds, Bool.not_eq_true', ← Bool.not_eq_true, signed_eq_toInt, signed_eq_toInt,
    BitVec.slt_iff_toInt_lt, Int.not_lt]

theorem holds_ltu : ltu.holds a b = true ↔ a.toNat < b.toNat := by
  rw [holds, BitVec.ult_iff_lt, BitVec.lt_def]

theorem holds_geu : geu.holds a b = true ↔ b.toNat ≤ a.toNat := by
  rw [holds, Bool.not_eq_true', ← Bool.not_eq_true, BitVec.ult_iff_lt, BitVec.lt_def, Nat.not_lt]

end Condition

end Hart
