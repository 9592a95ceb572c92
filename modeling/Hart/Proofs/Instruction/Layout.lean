import Hart.Proofs.Instruction.Pattern
import Hart.Proofs.Word

namespace Hart

def Format.operandMask : Format → Word
  | .immediate => 0xffff8f80
  | .branch => 0xffff8f80
  | .jump => 0xffffff80
  | .store => 0xffff8f80
  | .upper => 0xffffff80

theorem Format.getLsbD_operandMask {f : Format} {i : Nat} (hi : i < 32) :
    f.operandMask.getLsbD i =
      decide (7 ≤ i ∧ (i < 12 ∨ 15 ≤ i ∨ f = .jump ∨ f = .upper)) := by
  revert i
  cases f <;> decide

namespace Operands

/-- The operands that stay when a word of the format holds them: the immediate loses the bits that
have no place, and its highest bit is its sign. -/
def canonical : Operands f → Operands f
  | .immediate rd rs1 imm => .immediate rd rs1 (signExtend imm 12)
  | .branch rs1 rs2 imm => .branch rs1 rs2 (signExtend (imm &&& ~~~1#32) 13)
  | .jump rd imm => .jump rd (signExtend (imm &&& ~~~1#32) 21)
  | .store rs1 rs2 imm => .store rs1 rs2 (signExtend imm 12)
  | .upper rd imm => .upper rd (imm &&& 0xfffff000)

def InRange : Operands f → Prop
  | .immediate _ _ imm => -2 ^ 11 ≤ imm.toInt ∧ imm.toInt < 2 ^ 11
  | .branch _ _ imm => imm.toInt % 2 = 0 ∧ -2 ^ 12 ≤ imm.toInt ∧ imm.toInt < 2 ^ 12
  | .jump _ imm => imm.toInt % 2 = 0 ∧ -2 ^ 20 ≤ imm.toInt ∧ imm.toInt < 2 ^ 20
  | .store _ _ imm => -2 ^ 11 ≤ imm.toInt ∧ imm.toInt < 2 ^ 11
  | .upper _ imm => imm.toNat % 2 ^ 12 = 0

theorem getLsbD_upperMask {i : Nat} (hi : i < 32) :
    (0xfffff000 : Word).getLsbD i = decide (12 ≤ i) := by
  revert i
  decide

theorem encode_decode (f : Format) (w : Word) : (decode f w).encode = w &&& f.operandMask := by
  apply BitVec.eq_of_getLsbD_eq
  intro i hi
  rw [BitVec.getLsbD_and, Format.getLsbD_operandMask hi]
  cases f <;> simp only [decode, encode, BitVec.getLsbD_append, BitVec.getLsbD_extractLsb,
    BitVec.getLsbD_signExtend, BitVec.getLsbD_zero] <;> grind

theorem encode_and_operandMask (p : Operands f) : p.encode &&& f.operandMask = p.encode := by
  apply BitVec.eq_of_getLsbD_eq
  intro i hi
  rw [BitVec.getLsbD_and, Format.getLsbD_operandMask hi]
  cases p <;> simp only [encode, BitVec.getLsbD_append, BitVec.getLsbD_zero] <;> grind

theorem decode_encode (p : Operands f) : decode f p.encode = p.canonical := by
  cases p <;> simp only [decode, encode, canonical] <;> congr 1 <;>
    apply BitVec.eq_of_getLsbD_eq <;> intro i hi <;>
    simp only [BitVec.getLsbD_append, BitVec.getLsbD_extractLsb, BitVec.getLsbD_signExtend,
      BitVec.msb_eq_getLsbD_last, BitVec.getLsbD_setWidth, BitVec.getLsbD_and, BitVec.getLsbD_not,
      BitVec.getLsbD_zero, signExtend, BitVec.getLsbD_one] <;>
    grind [getLsbD_upperMask]

theorem canonical_decode (f : Format) (w : Word) : (decode f w).canonical = decode f w := by
  cases f <;> simp only [decode, canonical] <;> congr 1 <;>
    apply BitVec.eq_of_getLsbD_eq <;> intro i hi <;>
    simp only [BitVec.getLsbD_append, BitVec.getLsbD_extractLsb, BitVec.getLsbD_signExtend,
      BitVec.msb_eq_getLsbD_last, BitVec.getLsbD_setWidth, BitVec.getLsbD_and, BitVec.getLsbD_not,
      BitVec.getLsbD_zero, signExtend, BitVec.getLsbD_one] <;>
    grind [getLsbD_upperMask]

theorem and_upperMask_eq_self_iff {v : Word} : v &&& 0xfffff000 = v ↔ v.toNat % 2 ^ 12 = 0 := by
  have hv : v.toNat % 2 ^ 12 = 0 ↔ v.setWidth 12 = 0#12 := by
    rw [← BitVec.toNat_inj, BitVec.toNat_setWidth, BitVec.toNat_zero]
  rw [hv]
  constructor
  · intro h
    apply BitVec.eq_of_getLsbD_eq
    intro i hi
    rw [← h, BitVec.getLsbD_setWidth, BitVec.getLsbD_and, getLsbD_upperMask (by omega)]
    simp [hi]
  · intro h
    apply BitVec.eq_of_getLsbD_eq
    intro i hi
    have hlow := congrArg (·.getLsbD i) h
    simp only [BitVec.getLsbD_setWidth, BitVec.getLsbD_zero] at hlow
    rw [BitVec.getLsbD_and, getLsbD_upperMask hi]
    by_cases hi' : i < 12
    · simpa [hi', show ¬ 12 ≤ i by omega] using hlow.symm
    · simp [show 12 ≤ i by omega]

theorem signExtend_even_eq_self_iff {v : Word} {n : Nat} (h0 : 0 < n) (h : n ≤ 32) :
    signExtend (v &&& ~~~1#32) n = v ↔
      v.toInt % 2 = 0 ∧ -2 ^ (n - 1) ≤ v.toInt ∧ v.toInt < 2 ^ (n - 1) := by
  constructor
  · intro e
    have heven : v.toInt % 2 = 0 := by
      rw [toInt_emod_two, ← e, getLsbD_signExtend h0 (by decide), Nat.zero_min, BitVec.getLsbD_and,
        BitVec.getLsbD_not, BitVec.getLsbD_one]
      exact Bool.and_false _
    rw [and_not_one_eq_self_iff.2 heven] at e
    exact ⟨heven, (signExtend_eq_self_iff h0 h).1 e⟩
  · rintro ⟨heven, hrange⟩
    rw [and_not_one_eq_self_iff.2 heven]
    exact (signExtend_eq_self_iff h0 h).2 hrange

theorem canonical_eq_self_iff {p : Operands f} : p.canonical = p ↔ p.InRange := by
  cases p with
  | immediate rd rs1 imm =>
    simp only [canonical, InRange, immediate.injEq, true_and]
    exact signExtend_eq_self_iff (by decide) (by decide)
  | branch rs1 rs2 imm =>
    simp only [canonical, InRange, branch.injEq, true_and]
    exact signExtend_even_eq_self_iff (by decide) (by decide)
  | jump rd imm =>
    simp only [canonical, InRange, jump.injEq, true_and]
    exact signExtend_even_eq_self_iff (by decide) (by decide)
  | store rs1 rs2 imm =>
    simp only [canonical, InRange, store.injEq, true_and]
    exact signExtend_eq_self_iff (by decide) (by decide)
  | upper rd imm =>
    simp only [canonical, InRange, upper.injEq, true_and]
    exact and_upperMask_eq_self_iff

theorem inRange_decode (f : Format) (w : Word) : (decode f w).InRange :=
  canonical_eq_self_iff.1 (canonical_decode f w)

end Operands

end Hart
