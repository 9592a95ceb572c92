import Hart.Proofs.Manual.Syntax

namespace Hart

namespace Operands

variable {f : Format}

def imm : Operands f → Word
  | .immediate _ _ imm => imm
  | .branch _ _ imm => imm
  | .jump _ imm => imm
  | .store _ _ imm => imm
  | .upper _ imm => imm

def withImm (v : Word) : Operands f → Operands f
  | .immediate rd rs1 _ => .immediate rd rs1 v
  | .branch rs1 rs2 _ => .branch rs1 rs2 v
  | .jump rd _ => .jump rd v
  | .store rs1 rs2 _ => .store rs1 rs2 v
  | .upper rd _ => .upper rd v

def registers : Operands f → List Register
  | .immediate rd rs1 _ => [rd, rs1]
  | .branch rs1 rs2 _ => [rs1, rs2]
  | .jump rd _ => [rd]
  | .store rs1 rs2 _ => [rs1, rs2]
  | .upper rd _ => [rd]

end Operands

namespace Manual

/-- `count` bits of a word, from bit `word` on, that hold those of an immediate from bit `imm` on. -/
structure Place where
  word : Nat
  imm : Nat
  count : Nat

def immediatePlaces : Format → List Place
  | .immediate => [⟨20, 0, 12⟩]
  | .branch => [⟨8, 1, 4⟩, ⟨25, 5, 6⟩, ⟨7, 11, 1⟩, ⟨31, 12, 1⟩]
  | .jump => [⟨21, 1, 10⟩, ⟨20, 11, 1⟩, ⟨12, 12, 8⟩, ⟨31, 20, 1⟩]
  | .store => [⟨7, 0, 5⟩, ⟨25, 5, 7⟩]
  | .upper => [⟨12, 12, 20⟩]

def registerPlaces : Format → List Nat
  | .immediate => [7, 15]
  | .branch => [15, 20]
  | .jump => [7]
  | .store => [15, 20]
  | .upper => [7]

def IsOperandBit (f : Format) (i : Nat) : Prop :=
  (∃ s ∈ immediatePlaces f, s.word ≤ i ∧ i < s.word + s.count) ∨
    ∃ lo ∈ registerPlaces f, lo ≤ i ∧ i < lo + 5

instance (f : Format) (i : Nat) : Decidable (IsOperandBit f i) := inferInstanceAs (Decidable (_ ∨ _))

structure Shows (w : Word) {f : Format} (p : Operands f) : Prop where
  registers : List.Forall₂ (fun lo r => field w.toNat lo 5 = BitVec.toNat r) (registerPlaces f) p.registers
  immediate : ∀ s ∈ immediatePlaces f, field w.toNat s.word s.count = field p.imm.toNat s.imm s.count

/-- What is left of an immediate in the places of a format: its low bits, the highest of which is the sign,
without the lowest bit of an offset; the upper format has no places for the low bits. -/
def cut : Format → Word → Word
  | .immediate, v => .ofInt 32 (v.toInt.bmod (2 ^ 12))
  | .branch, v => .ofInt 32 ((v.toInt / 2 * 2).bmod (2 ^ 13))
  | .jump, v => .ofInt 32 ((v.toInt / 2 * 2).bmod (2 ^ 21))
  | .store, v => .ofInt 32 (v.toInt.bmod (2 ^ 12))
  | .upper, v => .ofNat 32 (v.toNat / 2 ^ 12 * 2 ^ 12)

variable {f : Format}

theorem getLsbD_operandMask_iff (f : Format) (i : Nat) :
    f.operandMask.getLsbD i = true ↔ IsOperandBit f i := by
  have hlow : ∀ i < 32, f.operandMask.getLsbD i = true ↔ IsOperandBit f i := by
    cases f <;> decide
  have hhigh : (∀ s ∈ immediatePlaces f, s.word + s.count ≤ 32) ∧ ∀ lo ∈ registerPlaces f, lo + 5 ≤ 32 := by
    cases f <;> decide
  by_cases hi : i < 32
  · exact hlow i hi
  · rw [BitVec.getLsbD_of_ge _ _ (Nat.le_of_not_lt hi)]
    refine iff_of_false Bool.false_ne_true ?_
    rintro (⟨s, hs, _, hlt⟩ | ⟨lo, hlo, _, hlt⟩)
    · exact hi (hlt.trans_le (hhigh.1 s hs))
    · exact hi (hlt.trans_le (hhigh.2 lo hlo))

theorem field_eq_toNat_iff (w : Word) (lo : Nat) (x : BitVec n) :
    field w.toNat lo n = x.toNat ↔ ∀ k < n, w.getLsbD (lo + k) = x.getLsbD k := by
  rw [field_toNat, BitVec.toNat_inj]
  constructor
  · rintro rfl k hk
    simp [hk]
  · intro h
    apply BitVec.eq_of_getLsbD_eq
    intro k hk
    simp only [BitVec.getLsbD_extractLsb', hk, decide_true, Bool.true_and, h k hk]

theorem field_eq_field_iff (v w : Word) (i j n : Nat) :
    field v.toNat i n = field w.toNat j n ↔ ∀ k < n, v.getLsbD (i + k) = w.getLsbD (j + k) := by
  rw [field_toNat w, field_eq_toNat_iff]
  refine forall₂_congr fun k hk => ?_
  rw [BitVec.getLsbD_extractLsb', decide_eq_true hk, Bool.true_and]

theorem shows_encode (p : Operands f) : Shows p.encode p where
  registers := by
    cases p <;>
      simp only [registerPlaces, Operands.registers, List.forall₂_cons, List.forall₂_nil_left_iff, and_true,
        field_eq_toNat_iff] <;>
      simp only [Operands.encode, BitVec.getLsbD_append, BitVec.getLsbD_extractLsb, BitVec.getLsbD_zero] <;>
      grind
  immediate := by
    cases p <;>
      simp only [immediatePlaces, List.forall_mem_cons, List.not_mem_nil, false_imp_iff, implies_true,
        and_true, field_eq_field_iff, Operands.imm] <;>
      simp only [Operands.encode, BitVec.getLsbD_append, BitVec.getLsbD_extractLsb, BitVec.getLsbD_zero] <;>
      grind

theorem Shows.of_and_operandMask {w : Word} {p : Operands f} (h : Shows (w &&& f.operandMask) p) :
    Shows w p := by
  have hfield {lo n : Nat} (hbits : ∀ k < n, IsOperandBit f (lo + k)) :
      field (w &&& f.operandMask).toNat lo n = field w.toNat lo n := by
    rw [field_eq_field_iff]
    intro k hk
    rw [BitVec.getLsbD_and, (getLsbD_operandMask_iff f _).2 (hbits k hk), Bool.and_true]
  constructor
  · obtain ⟨hlen, hr⟩ := List.forall₂_iff_zip.1 h.registers
    refine List.forall₂_iff_zip.2 ⟨hlen, fun hmem => ?_⟩
    rw [← hr hmem]
    exact (hfield fun k hk => .inr ⟨_, (List.of_mem_zip hmem).1, by omega, by omega⟩).symm
  · intro s hs
    rw [← h.immediate s hs]
    exact (hfield fun k hk => .inl ⟨s, hs, by omega, by omega⟩).symm

theorem shows_decode (f : Format) (w : Word) : Shows w (Operands.decode f w) := by
  apply Shows.of_and_operandMask
  rw [← Operands.encode_decode]
  exact shows_encode _

theorem signExtend_eq_ofInt (v : Word) {n : Nat} (h : n ≤ 32) :
    signExtend v n = .ofInt 32 (v.toInt.bmod (2 ^ n)) := by
  rw [← toInt_signExtend v h, BitVec.ofInt_toInt]

theorem toInt_and_not_one (v : Word) : (v &&& ~~~1#32).toInt = v.toInt / 2 * 2 := by
  rw [BitVec.toInt_eq_toNat_cond, BitVec.toInt_eq_toNat_cond, toNat_and_not_one]
  split <;> split <;> omega

theorem canonical_eq_withImm (p : Operands f) : p.canonical = p.withImm (cut f p.imm) := by
  cases p with
  | immediate rd rs1 imm =>
    rw [Operands.canonical, signExtend_eq_ofInt _ (by decide)]
    rfl
  | branch rs1 rs2 imm =>
    rw [Operands.canonical, signExtend_eq_ofInt _ (by decide), toInt_and_not_one]
    rfl
  | jump rd imm =>
    rw [Operands.canonical, signExtend_eq_ofInt _ (by decide), toInt_and_not_one]
    rfl
  | store rs1 rs2 imm =>
    rw [Operands.canonical, signExtend_eq_ofInt _ (by decide)]
    rfl
  | upper rd imm =>
    have h : imm &&& 0xfffff000 = .ofNat 32 (imm.toNat / 2 ^ 12 * 2 ^ 12) := by
      rw [← Form.toNat_and_upperMask, BitVec.ofNat_toNat, BitVec.setWidth_eq]
    rw [Operands.canonical, h]
    rfl

/-- Every format is a codec for its places. What operands encode to decodes to them with what the format leaves
of their immediate, thus to themselves exactly when the immediate is in range; what a word decodes to encodes to
the operand bits of the word, among which are no bits of the opcode and, but for the jump and the upper format,
none of the minor opcode; both directions put every bit of an immediate where the manual has it. -/
theorem formats_agree (f : Format) :
    (∀ p : Operands f, Operands.decode f p.encode = p.withImm (cut f p.imm) ∧
      (Operands.decode f p.encode = p ↔ p.InRange)) ∧
    (∀ w, (Operands.decode f w).encode = w &&& f.operandMask) ∧
    ((∀ i, f.operandMask.getLsbD i = true ↔ IsOperandBit f i) ∧
      field f.operandMask.toNat 0 7 = 0 ∧
      field f.operandMask.toNat 12 3 = if f = .jump ∨ f = .upper then 7 else 0) ∧
    (∀ p : Operands f, Shows p.encode p) ∧
    ∀ w, Shows w (Operands.decode f w) ∧ (Operands.decode f w).InRange := by
  refine ⟨fun p => ?_, Operands.encode_decode f, ⟨getLsbD_operandMask_iff f, ?_⟩, shows_encode, fun w =>
    ⟨shows_decode f w, Operands.inRange_decode f w⟩⟩
  · rw [Operands.decode_encode]
    exact ⟨canonical_eq_withImm p, Operands.canonical_eq_self_iff⟩
  · cases f <;> decide

example : Operands.decode .branch 0xfe209ee3 = .branch 1 2 (-4) := by
  decide

end Manual
end Hart
