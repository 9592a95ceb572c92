import Hart.Instruction.BaseSet
import Hart.Proofs.Instruction.Layout

namespace Hart

namespace Shape

def mask : {f : Format} → Shape f → Word
  | f, .plain => f.operandMask
  | _, .shift => 0x01ff8f80
  | _, .bare => Format.immediate.operandMask

def InRange : {f : Format} → Shape f → Locator → Operands f → Prop
  | _, .plain, _, p => p.InRange
  | _, .shift, _, .immediate _ _ imm => imm.toNat < 2 ^ 5
  | _, .bare, l, .immediate _ _ imm =>
    imm = signExtend (Locator.funct12Range.get l.pattern.value) 12

theorem getLsbD_shiftMask {i : Nat} (hi : i < 32) : (0x1f : Word).getLsbD i = decide (i < 5) := by
  revert i
  decide

theorem getLsbD_mask_shift {i : Nat} (hi : i < 32) :
    (shift.mask).getLsbD i = decide (7 ≤ i ∧ i < 12 ∨ 15 ≤ i ∧ i < 25) := by
  revert i
  decide

theorem encode_operands (s : Shape f) (w : Word) : (s.operands w).encode = w &&& s.mask := by
  cases s with
  | plain => exact Operands.encode_decode f w
  | bare => exact Operands.encode_decode .immediate w
  | shift =>
    apply BitVec.eq_of_getLsbD_eq
    intro i hi
    rw [BitVec.getLsbD_and, getLsbD_mask_shift hi]
    simp only [operands, Operands.decode, Operands.encode, BitVec.getLsbD_append,
      BitVec.getLsbD_extractLsb, BitVec.getLsbD_signExtend, BitVec.getLsbD_zero, BitVec.getLsbD_and]
    grind [getLsbD_shiftMask]

theorem toNat_and_shiftMask (v : Word) : (v &&& 0x1f).toNat = v.toNat % 2 ^ 5 := by
  rw [BitVec.toNat_and]
  exact Nat.and_two_pow_sub_one_eq_mod v.toNat 5

theorem toInt_of_lt {v : Word} (h : v.toNat < 2 ^ 5) : v.toInt = v.toNat := by
  rw [BitVec.toInt_eq_toNat_cond, if_pos (by omega)]

theorem canonical_operands (s : Shape f) (w : Word) :
    (s.operands w).canonical = s.operands w := by
  cases s with
  | plain => exact Operands.canonical_decode f w
  | bare => exact Operands.canonical_decode .immediate w
  | shift =>
    apply Operands.canonical_eq_self_iff.2
    have h := toNat_and_shiftMask ((w.extractLsb 31 20).signExtend 32)
    have hlt : ((w.extractLsb 31 20).signExtend 32 &&& (0x1f : Word)).toNat < 2 ^ 5 := by
      rw [h]
      exact Nat.mod_lt _ (by decide)
    simp only [operands, Operands.decode, Operands.InRange, toInt_of_lt hlt]
    omega

theorem operands_congr (s : Shape f) {v w : Word} (h : v &&& s.mask = w &&& s.mask) :
    s.operands v = s.operands w := by
  rw [← canonical_operands s v, ← canonical_operands s w, ← Operands.decode_encode,
    ← Operands.decode_encode, encode_operands, encode_operands, h]

theorem operands_encode (s : Shape f) (l : Locator) {p : Operands f} (h : s.InRange l p) :
    s.operands p.encode = p := by
  cases s with
  | plain => exact (Operands.decode_encode p).trans (Operands.canonical_eq_self_iff.2 h)
  | shift =>
    cases p with
    | immediate rd rs1 imm =>
      have hi : imm.toNat < 2 ^ 5 := h
      have hp : (Operands.immediate rd rs1 imm).canonical = .immediate rd rs1 imm := by
        apply Operands.canonical_eq_self_iff.2
        simp only [Operands.InRange, toInt_of_lt hi]
        omega
      have himm : imm &&& 0x1f = imm := by
        rw [← BitVec.toNat_inj, toNat_and_shiftMask, Nat.mod_eq_of_lt hi]
      rw [operands, Operands.decode_encode, hp]
      simp only [himm]
  | bare =>
    cases p with
    | immediate rd rs1 imm =>
      have hi : imm = signExtend (Locator.funct12Range.get l.pattern.value) 12 := h
      have hp : (Operands.immediate rd rs1 imm).canonical = .immediate rd rs1 imm := by
        rw [Operands.canonical, hi, signExtend_signExtend _ (by decide)]
      rw [operands, Operands.decode_encode, hp]

theorem operandMask_or (f : Format) (l : Locator) :
    f.operandMask ||| (0x7f ||| l.pattern.mask) = (Shape.of f l).mask ||| (0x7f ||| l.pattern.mask) := by
  cases f with
  | immediate =>
    cases l with
    | funct3Funct7 a b =>
      change (0xffff8f80 : Word) ||| (0x7f ||| 0xfe007000) = 0x01ff8f80 ||| (0x7f ||| 0xfe007000)
      decide
    | none => rfl
    | funct3 a => rfl
    | funct3Funct12 a b => rfl
  | branch => rfl
  | jump => rfl
  | store => rfl
  | upper => rfl

end Shape

namespace Locator

theorem funct12_pattern (a b : Word) :
    (funct12Range.get (funct3Funct12 a b).pattern.value).setWidth 12 = b.setWidth 12 := by
  apply BitVec.eq_of_getLsbD_eq
  intro i hi
  have hw : funct12Range.width = 12 := rfl
  rw [BitVec.getLsbD_setWidth, BitVec.getLsbD_setWidth, BitRange.getLsbD_get, hw, pattern,
    BitRange.getLsbD_set, if_pos (by simp only [funct12Range]; omega)]
  simp [funct12Range, hi, show 20 + i < 32 by omega]

/-- Whether the fields of the locator are no operand fields of the format, except in bare
instructions, whose immediate they are. -/
def regular : Format → Locator → Bool
  | .immediate, _ => true
  | .branch, .none => true
  | .branch, .funct3 _ => true
  | .store, .none => true
  | .store, .funct3 _ => true
  | .jump, .none => true
  | .upper, .none => true
  | _, _ => false

theorem disjoint_of_regular {f : Format} (l : Locator) (h : l.regular f) :
    (∃ a b, f = .immediate ∧ l = .funct3Funct12 a b) ∨
      (0x7f ||| l.pattern.mask) &&& (Shape.of f l).mask = 0#32 := by
  have none : (0x7f ||| 0 : Word) &&& 0xffff8f80 = 0#32 := by decide
  have jump : (0x7f ||| 0 : Word) &&& 0xffffff80 = 0#32 := by decide
  have funct3 : (0x7f ||| 0x7000 : Word) &&& 0xffff8f80 = 0#32 := by decide
  have shift : (0x7f ||| 0xfe007000 : Word) &&& 0x01ff8f80 = 0#32 := by decide
  cases f with
  | immediate =>
    cases l with
    | none => exact .inr none
    | funct3 a => exact .inr funct3
    | funct3Funct7 a b => exact .inr shift
    | funct3Funct12 a b => exact .inl ⟨a, b, rfl, rfl⟩
  | branch =>
    cases l with
    | none => exact .inr none
    | funct3 a => exact .inr funct3
    | funct3Funct7 a b => cases h
    | funct3Funct12 a b => cases h
  | store =>
    cases l with
    | none => exact .inr none
    | funct3 a => exact .inr funct3
    | funct3Funct7 a b => cases h
    | funct3Funct12 a b => cases h
  | jump =>
    cases l with
    | none => exact .inr jump
    | funct3 a => cases h
    | funct3Funct7 a b => cases h
    | funct3Funct12 a b => cases h
  | upper =>
    cases l with
    | none => exact .inr jump
    | funct3 a => cases h
    | funct3Funct7 a b => cases h
    | funct3Funct12 a b => cases h

end Locator

theorem Shape.inRange_operands {f : Format} {l : Locator} {w : Word} (h : l.Selects w) :
    (Shape.of f l).InRange l ((Shape.of f l).operands w) := by
  cases f with
  | immediate =>
    cases l with
    | none => exact Operands.inRange_decode .immediate w
    | funct3 a => exact Operands.inRange_decode .immediate w
    | funct3Funct7 a b =>
      change ((w.extractLsb 31 20).signExtend 32 &&& (0x1f : Word)).toNat < 2 ^ 5
      rw [toNat_and_shiftMask]
      exact Nat.mod_lt _ (by decide)
    | funct3Funct12 a b =>
      change (w.extractLsb 31 20).signExtend 32 =
        signExtend (Locator.funct12Range.get (Locator.funct3Funct12 a b).pattern.value) 12
      rw [signExtend, Locator.funct12_pattern, h.2]
  | branch => exact Operands.inRange_decode .branch w
  | jump => exact Operands.inRange_decode .jump w
  | store => exact Operands.inRange_decode .store w
  | upper => exact Operands.inRange_decode .upper w

namespace Descriptor

def InRange (d : Descriptor) (p : Operands d.format) : Prop := d.shape.InRange d.locator p

theorem inRange_operands {d : Descriptor} {w : Word} (h : d.pattern.Matches w) :
    d.InRange (d.operands w) := by
  obtain ⟨m, o, l, x⟩ := d
  have hl := ((matches_pattern _ w).1 h).2
  exact Shape.inRange_operands hl

theorem operandMask_or (d : Descriptor) :
    d.format.operandMask ||| d.pattern.mask = d.shape.mask ||| d.pattern.mask :=
  Shape.operandMask_or d.format d.locator

theorem encode_operands {d : Descriptor} {w : Word} (h : d.pattern.Matches w) :
    d.encode (d.operands w) = w &&& (d.format.operandMask ||| d.pattern.mask) := by
  rw [operandMask_or, encode, operands, Shape.encode_operands, ← h]
  apply BitVec.eq_of_getLsbD_eq
  intro i hi
  simp only [BitVec.getLsbD_or, BitVec.getLsbD_and, BitVec.getLsbD_not, hi, decide_true]
  cases w.getLsbD i <;> cases d.shape.mask.getLsbD i <;> cases d.pattern.mask.getLsbD i <;> rfl

theorem encode_and_masks (d : Descriptor) (p : Operands d.format) :
    d.encode p &&& (d.format.operandMask ||| d.pattern.mask) = d.encode p := by
  rw [encode, ← p.encode_and_operandMask, ← d.proper_pattern]
  apply BitVec.eq_of_getLsbD_eq
  intro i hi
  simp only [BitVec.getLsbD_or, BitVec.getLsbD_and, BitVec.getLsbD_not, hi, decide_true]
  cases d.format.operandMask.getLsbD i <;> cases d.pattern.mask.getLsbD i <;> simp

theorem encode_operands_encode (d : Descriptor) (p : Operands d.format) :
    d.encode (d.operands (d.encode p)) = d.encode p := by
  rw [encode_operands (d.matches_encode p), encode_and_masks]

theorem agree_of_disjoint {d : Descriptor} (h : d.pattern.mask &&& d.shape.mask = 0#32) (w : Word) :
    w &&& (d.pattern.mask &&& d.shape.mask) = d.pattern.value &&& d.shape.mask := by
  rw [← d.proper_pattern, BitVec.and_assoc, h, BitVec.and_zero, BitVec.and_zero]

theorem operands_encode_of_agree {d : Descriptor} {p : Operands d.format} (h : d.InRange p)
    (hp : p.encode &&& (d.pattern.mask &&& d.shape.mask) = d.pattern.value &&& d.shape.mask) :
    d.operands (d.encode p) = p := by
  refine Eq.trans (d.shape.operands_congr ?_) (d.shape.operands_encode d.locator h)
  apply BitVec.eq_of_getLsbD_eq
  intro i hi
  have hp := congrArg (·.getLsbD i) hp
  have hv := d.proper_pattern.getLsbD (i := i)
  simp only [encode, BitVec.getLsbD_or, BitVec.getLsbD_and, BitVec.getLsbD_not, hi, decide_true]
    at hp ⊢
  cases hm : d.pattern.mask.getLsbD i with
  | true => simpa [hm] using hp.symm
  | false =>
    have hv : d.pattern.value.getLsbD i = false := by
      cases hv' : d.pattern.value.getLsbD i with
      | true => exact absurd (hv hv') (by rw [hm]; exact Bool.false_ne_true)
      | false => rfl
    simp [hv]

theorem getLsbD_funct12Mask {i : Nat} (hi : i < 32) :
    (0xfff00000 : Word).getLsbD i = decide (20 ≤ i) := by
  revert i
  decide

theorem getLsbD_value {d : Descriptor} {i : Nat} (hi : 20 ≤ i) :
    d.pattern.value.getLsbD i = d.locator.pattern.value.getLsbD i := by
  rw [pattern, BitVec.getLsbD_or, BitVec.getLsbD_setWidth, BitVec.getLsbD_of_ge _ i (by omega),
    Bool.and_false, Bool.false_or]

theorem agree_bare {d : Descriptor} (hm : d.pattern.mask = 0xfff0707f) (rd rs1 : Register) :
    (Operands.immediate rd rs1
        (signExtend (Locator.funct12Range.get d.locator.pattern.value) 12)).encode &&&
        (d.pattern.mask &&& Format.immediate.operandMask) =
      d.pattern.value &&& Format.immediate.operandMask := by
  have hmask : d.pattern.mask &&& Format.immediate.operandMask = 0xfff00000 := by
    rw [hm]
    decide
  rw [← d.proper_pattern, BitVec.and_assoc d.pattern.value, hmask]
  apply BitVec.eq_of_getLsbD_eq
  intro i hi
  rw [BitVec.getLsbD_and, BitVec.getLsbD_and, getLsbD_funct12Mask hi]
  by_cases hlow : 20 ≤ i
  · rw [getLsbD_value hlow]
    simp only [Operands.encode, BitVec.getLsbD_append, BitVec.getLsbD_extractLsb]
    rw [Nat.zero_add, getLsbD_signExtend (by decide) (by omega), BitRange.getLsbD_get]
    have hw : Locator.funct12Range.width = 12 := rfl
    have hlo : Locator.funct12Range.lo = 20 := rfl
    rw [hw, hlo]
    grind
  · simp [hlow]

theorem operands_encode {d : Descriptor} (hd : d.locator.regular d.format) {p : Operands d.format}
    (h : d.InRange p) : d.operands (d.encode p) = p := by
  apply operands_encode_of_agree h
  obtain ⟨m, o, l, x⟩ := d
  rcases l.disjoint_of_regular hd with ⟨a, b, rfl, rfl⟩ | hdisj
  · cases p with
    | immediate rd rs1 imm =>
      cases show imm = signExtend _ 12 from h
      have hmask : (0x7f ||| 0xfff07000 : Word) = 0xfff0707f := by decide
      exact agree_bare (d := ⟨m, o, .funct3Funct12 a b, x⟩) hmask rd rs1
  · exact agree_of_disjoint (d := ⟨m, o, l, x⟩) hdisj _

end Descriptor

namespace InstructionSet

theorem descriptors_of_ofList {ds : List Descriptor} {s : InstructionSet} (h : ofList ds = .ok s) :
    s.descriptors = ds := by
  unfold ofList at h
  split at h
  · cases h
  · cases h
    rfl

theorem ofList_descriptors (s : InstructionSet) : ofList s.descriptors = .ok s := by
  unfold ofList
  split
  · next e h =>
    rw [firstConflict?_eq_none_iff.2 s.compatible] at h
    cases h
  · rfl

theorem regular_base : ∀ d ∈ baseDescriptors, d.locator.regular d.format := by
  decide

/-- In every table an encoded word is decoded as the entry that encoded it, and its operands encode
to the word again; in the base table operands in range come back as they were. -/
theorem decode_encode_entry :
    (∀ ds s, ofList ds = .ok s → ∀ d ∈ ds, ∀ p : Operands d.format,
      ∃ q, s.decode (d.encode p) = .ok ⟨d.encode p, d, q⟩ ∧ d.encode q = d.encode p) ∧
    ∀ d ∈ baseDescriptors, ∀ p : Operands d.format, d.InRange p →
      base.decode (d.encode p) = .ok ⟨d.encode p, d, p⟩ := by
  constructor
  · intro ds s hs d hd p
    rw [← descriptors_of_ofList hs] at hd
    exact ⟨_, decode_of_matches hd (d.matches_encode p), d.encode_operands_encode p⟩
  · intro d hd p hp
    have h := decode_of_matches (s := base) hd (d.matches_encode p)
    rw [Descriptor.operands_encode (regular_base d hd) hp] at h
    exact h

theorem decode_encode_beq :
    let beq : Descriptor := ⟨"BEQ", .branch, .funct3 0b000, .branch .eq⟩
    (∃ q, base.decode (beq.encode (.branch 1 2 5001)) = .ok ⟨beq.encode (.branch 1 2 5001), beq, q⟩ ∧
      beq.encode q = beq.encode (.branch 1 2 5001)) ∧
    base.decode (beq.encode (.branch 31 17 (-4096))) =
      .ok ⟨beq.encode (.branch 31 17 (-4096)), beq, .branch 31 17 (-4096)⟩ := by
  intro beq
  have hmem : beq ∈ baseDescriptors := by simp [beq, baseDescriptors]
  have hrange : beq.InRange (.branch 31 17 (-4096)) := by
    change (-4096#32).toInt % 2 = 0 ∧ -2 ^ 12 ≤ (-4096#32).toInt ∧ (-4096#32).toInt < 2 ^ 12
    decide
  exact ⟨decode_encode_entry.1 baseDescriptors base (ofList_descriptors base) beq hmem (.branch 1 2 5001),
    decode_encode_entry.2 beq hmem (.branch 31 17 (-4096)) hrange⟩

end InstructionSet

end Hart
