import Hart.Assembly.Program
import Hart.Proofs.Assembly.Tokens
import Hart.Proofs.Instruction.RoundTrip

namespace Hart

open Assembly Text

namespace Operands

theorem isWord_words (p : Operands f) : ∀ t ∈ p.words, IsWord t.toList := by
  cases p <;> simp [words, isWord_register, isWord_signed, isWord_decimal]

theorem read_words {p : Operands f} (h : p.InRange) : Operands.read f p.words = .ok p := by
  cases p with
  | immediate rd rs1 imm =>
    have himm : Tokens.signed [rd.text, rs1.text, Numeral.signed imm.toInt] 2 12 = .ok imm :=
      Tokens.signed_signed rfl (by decide) h
    rw [words, Operands.read, Tokens.register_zero, Tokens.register_one, himm]
    rfl
  | branch rs1 rs2 imm =>
    have himm : Tokens.offset [rs1.text, rs2.text, Numeral.signed imm.toInt] 2 13 = .ok imm :=
      Tokens.offset_eq_ok (Tokens.signed_signed rfl (by decide) h.2) ((toInt_emod_two imm).1 h.1)
    rw [words, Operands.read, Tokens.register_zero, Tokens.register_one, himm]
    rfl
  | jump rd imm =>
    have himm : Tokens.offset [rd.text, Numeral.signed imm.toInt] 1 21 = .ok imm :=
      Tokens.offset_eq_ok (Tokens.signed_signed rfl (by decide) h.2) ((toInt_emod_two imm).1 h.1)
    rw [words, Operands.read, Tokens.register_zero, himm]
    rfl
  | store rs1 rs2 imm =>
    have himm : Tokens.signed [rs2.text, rs1.text, Numeral.signed imm.toInt] 2 12 = .ok imm :=
      Tokens.signed_signed rfl (by decide) h
    rw [words, Operands.read, Tokens.register_zero, Tokens.register_one, himm]
    rfl
  | upper rd imm =>
    have himm : Tokens.unsigned [rd.text, Numeral.decimal imm.toNat] 1 32 = .ok imm :=
      Tokens.unsigned_decimal rfl
    have hmask : imm &&& 0xfffff000 = imm := and_upperMask_eq_self_iff.2 h
    rw [words, Operands.read, Tokens.register_zero, himm]
    change Except.ok (Operands.upper rd (imm &&& 0xfffff000)) = _
    rw [hmask]

end Operands

namespace Shape

def reread : {f : Format} → Shape f → Locator → Operands f → Operands f
  | _, .plain, _, p => p
  | _, .shift, _, p => p
  | _, .bare, l, _ => .immediate 0 0 (signExtend (Locator.funct12Range.get l.pattern.value) 12)

theorem isWord_words (s : Shape f) (p : Operands f) : ∀ t ∈ s.words p, IsWord t.toList := by
  cases s with
  | plain => exact p.isWord_words
  | shift => exact p.isWord_words
  | bare => exact fun _ h => absurd h List.not_mem_nil

theorem read_words (s : Shape f) (l : Locator) {p : Operands f} (h : s.InRange l p) :
    s.read l (s.words p) = .ok (s.reread l p) := by
  cases s with
  | plain => exact Operands.read_words h
  | bare => rfl
  | shift =>
    cases p with
    | immediate rd rs1 imm =>
      have hi : imm.toNat < 2 ^ 5 := h
      have hf : fitsUnsigned imm.toInt 5 = true := by
        rw [fitsUnsigned_iff, toInt_of_lt hi]
        omega
      have himm : Tokens.unsigned [rd.text, rs1.text, Numeral.signed imm.toInt] 2 5 = .ok imm := by
        rw [Tokens.unsigned_eq_ok rfl (Literal.value?_signed _) (by decide) hf,
          BitVec.ofInt_toInt]
      have hw : shift.words (.immediate rd rs1 imm) = [rd.text, rs1.text, Numeral.signed imm.toInt] :=
        rfl
      rw [hw, read, Tokens.register_zero, Tokens.register_one, himm]
      rfl

end Shape

def Locator.shownMask : Format → Locator → Word
  | .immediate, .funct3Funct12 _ _ => 0
  | f, _ => f.operandMask

theorem getLsbD_bareMask {i : Nat} (hi : i < 32) :
    (0xfff0707f : Word).getLsbD i = decide (i < 7 ∨ 12 ≤ i ∧ i < 15 ∨ 20 ≤ i) := by
  revert i
  decide

namespace Descriptor

/-- The locator of the entry takes the whole immediate of its words. -/
def Bare (d : Descriptor) : Prop := d.format = .immediate ∧ ∃ a b, d.locator = .funct3Funct12 a b

/-- The entry leaves the minor function field of its words open, and no operand stands there. -/
def Open (d : Descriptor) : Prop :=
  d.locator = .none ∧ (d.format = .immediate ∨ d.format = .branch ∨ d.format = .store)

theorem mask_of_bare {d : Descriptor} (h : d.Bare) : d.pattern.mask = 0xfff0707f := by
  obtain ⟨m, o, l, x⟩ := d
  obtain ⟨rfl, a, b, rfl⟩ := h
  change (0x7f ||| 0xfff07000 : Word) = _
  decide

def reread (d : Descriptor) (p : Operands d.format) : Operands d.format :=
  d.shape.reread d.locator p

def shownMask (d : Descriptor) : Word := d.locator.shownMask d.format ||| d.pattern.mask

theorem read_words {d : Descriptor} {w : Word} (h : d.pattern.Matches w) :
    d.read (d.shape.words (d.operands w)) = .ok (d.reread (d.operands w)) :=
  d.shape.read_words d.locator (inRange_operands h)

theorem encode_immediate_zero_zero (imm : Word) {i : Nat} (hi : i < 20) :
    (Operands.immediate 0 0 imm).encode.getLsbD i = false := by
  simp only [Operands.encode, BitVec.getLsbD_append, BitVec.getLsbD_zero]
  grind

theorem encode_bare (m : String) (o : Opcode) (a b : Word) (x : Action .immediate) (imm : Word) :
    let d : Descriptor := ⟨m, o, .funct3Funct12 a b, x⟩
    d.encode (.immediate 0 0 imm) = d.pattern.value := by
  intro d
  have hmask : d.pattern.mask = 0xfff0707f := mask_of_bare ⟨rfl, a, b, rfl⟩
  have hzero : (Operands.immediate 0 0 imm).encode &&& ~~~d.pattern.mask = 0#32 := by
    rw [hmask]
    apply BitVec.eq_of_getLsbD_eq
    intro i hi
    rw [BitVec.getLsbD_and, BitVec.getLsbD_zero]
    by_cases hlow : i < 20
    · rw [encode_immediate_zero_zero imm hlow, Bool.false_and]
    · rw [BitVec.getLsbD_not, getLsbD_bareMask hi]
      simp [show 20 ≤ i by omega]
  rw [encode, hzero, BitVec.zero_or]

theorem encode_reread_of_eq {d : Descriptor} {w : Word} (h : d.pattern.Matches w)
    (hr : d.reread (d.operands w) = d.operands w)
    (hm : d.locator.shownMask d.format = d.format.operandMask) :
    d.encode (d.reread (d.operands w)) = w &&& d.shownMask := by
  rw [hr, encode_operands h, shownMask, hm]

theorem encode_reread {d : Descriptor} {w : Word} (h : d.pattern.Matches w) :
    d.encode (d.reread (d.operands w)) = w &&& d.shownMask := by
  obtain ⟨m, o, l, x⟩ := d
  rename_i f
  cases f with
  | immediate =>
    cases l with
    | none => exact encode_reread_of_eq h rfl rfl
    | funct3 a => exact encode_reread_of_eq h rfl rfl
    | funct3Funct7 a b => exact encode_reread_of_eq h rfl rfl
    | funct3Funct12 a b =>
      have hmask : (Locator.funct3Funct12 a b).shownMask .immediate = 0#32 := rfl
      rw [shownMask, hmask, BitVec.zero_or, h]
      exact encode_bare m o a b x _
  | branch => exact encode_reread_of_eq h rfl rfl
  | jump => exact encode_reread_of_eq h rfl rfl
  | store => exact encode_reread_of_eq h rfl rfl
  | upper => exact encode_reread_of_eq h rfl rfl

theorem shownMask_of_bare {d : Descriptor} (h : d.Bare) : d.shownMask = d.pattern.mask := by
  obtain ⟨m, o, l, x⟩ := d
  obtain ⟨rfl, a, b, rfl⟩ := h
  exact BitVec.zero_or

theorem shownMask_of_open {d : Descriptor} (h : d.Open) : d.shownMask = ~~~0x7000#32 := by
  have hmask : (0xffff8f80 ||| (0x7f ||| 0) : Word) = ~~~0x7000#32 := by decide
  obtain ⟨m, o, l, x⟩ := d
  obtain ⟨rfl, rfl | rfl | rfl⟩ := h <;> exact hmask

theorem shownMask_of_closed {d : Descriptor} (hb : ¬ d.Bare) (ho : ¬ d.Open) :
    d.shownMask = BitVec.allOnes 32 := by
  have wide (v : Word) : 0xffffff80 ||| (0x7f ||| v) = BitVec.allOnes 32 := by
    rw [← BitVec.or_assoc]
    exact BitVec.allOnes_or
  have funct3 : (0xffff8f80 ||| (0x7f ||| 0x7000) : Word) = BitVec.allOnes 32 := by decide
  have funct7 : (0xffff8f80 ||| (0x7f ||| 0xfe007000) : Word) = BitVec.allOnes 32 := by decide
  have funct12 : (0xffff8f80 ||| (0x7f ||| 0xfff07000) : Word) = BitVec.allOnes 32 := by decide
  obtain ⟨m, o, l, x⟩ := d
  rename_i f
  cases f with
  | immediate =>
    cases l with
    | none => exact absurd ⟨rfl, .inl rfl⟩ ho
    | funct3 a => exact funct3
    | funct3Funct7 a b => exact funct7
    | funct3Funct12 a b => exact absurd ⟨rfl, a, b, rfl⟩ hb
  | branch =>
    cases l with
    | none => exact absurd ⟨rfl, .inr (.inl rfl)⟩ ho
    | funct3 a => exact funct3
    | funct3Funct7 a b => exact funct7
    | funct3Funct12 a b => exact funct12
  | store =>
    cases l with
    | none => exact absurd ⟨rfl, .inr (.inr rfl)⟩ ho
    | funct3 a => exact funct3
    | funct3Funct7 a b => exact funct7
    | funct3Funct12 a b => exact funct12
  | jump => cases l <;> exact wide _
  | upper => cases l <;> exact wide _

end Descriptor

namespace InstructionSet

variable {s : InstructionSet} {w : Word}

theorem encodeLine_of_tokens {d : Descriptor} (hd : d ∈ s.descriptors) {line : List Char}
    {ts : Tokens} (h : (tokens line).map String.ofList = d.mnemonic :: ts) :
    encodeLine s line = (d.read ts).map d.encode := by
  simp only [encodeLine, h, List.headD_cons, List.tail_cons, find?_mnemonic hd]
  cases d.read ts <;> rfl

theorem encodeLine_text {i : Instruction} (h : s.decode w = .ok i)
    (hm : IsWord i.mnemonic.toList) :
    encodeLine s i.text.toList = .ok (w &&& i.descriptor.shownMask) := by
  obtain ⟨d, hd, hw, rfl⟩ := decode_eq_ok_iff.1 h
  have hwords : ∀ t ∈ d.mnemonic :: d.shape.words (d.operands w), IsWord t.toList :=
    List.forall_mem_cons.2 ⟨hm, d.shape.isWord_words _⟩
  refine (encodeLine_of_tokens hd (tokens_line hwords)).trans ?_
  rw [Descriptor.read_words hw, ← Descriptor.encode_reread hw]
  rfl

theorem isWord_mnemonic_base : ∀ d ∈ baseDescriptors, IsWord d.mnemonic.toList := by
  decide

theorem shownMask_base : ∀ d ∈ baseDescriptors,
    d.shownMask = if d.opcode = .system then 0xfff0707f else BitVec.allOnes 32 := by
  decide

theorem field_eq_system_iff {d : Descriptor} (h : d.pattern.Matches w) :
    Opcode.field w = Opcode.system.code ↔ d.opcode = .system := by
  rw [((d.matches_pattern w).1 h).1]
  constructor
  · intro h
    exact Option.some.inj ((Opcode.ofCode?_code d.opcode).symm.trans
      ((congrArg Opcode.ofCode? h).trans (Opcode.ofCode?_code .system)))
  · intro h
    rw [h]

theorem and_bareMask_eq_self_iff {w : Word} :
    w &&& 0xfff0707f = w ↔ w.extractLsb 11 7 = 0#5 ∧ w.extractLsb 19 15 = 0#5 := by
  constructor
  · intro h
    rw [← h]
    constructor <;> apply BitVec.eq_of_getLsbD_eq <;> intro i hi <;>
      simp only [BitVec.getLsbD_extractLsb, BitVec.getLsbD_and, BitVec.getLsbD_zero] <;>
      grind [getLsbD_bareMask]
  · rintro ⟨hrd, hrs1⟩
    apply BitVec.eq_of_getLsbD_eq
    intro i hi
    have hrd := congrArg (·.getLsbD (i - 7)) hrd
    have hrs1 := congrArg (·.getLsbD (i - 15)) hrs1
    simp only [BitVec.getLsbD_extractLsb, BitVec.getLsbD_zero] at hrd hrs1
    rw [BitVec.getLsbD_and, getLsbD_bareMask hi]
    grind

/-- In every table whose mnemonics are words, the text of a decoded word is assembled again: to the
pattern of the entry if that is bare, to the word without its minor function field if the entry leaves
this field open, and to the word itself otherwise. -/
theorem encodeLine_text_ofList {ds : List Descriptor} {i : Instruction} (hs : ofList ds = .ok s)
    (hm : ∀ d ∈ ds, IsWord d.mnemonic.toList) (h : s.decode w = .ok i) :
    ∃ v, encodeLine s i.text.toList = .ok v ∧
      (i.descriptor.Bare → v = i.descriptor.pattern.value ∧ v.extractLsb 11 7 = 0#5 ∧
        v.extractLsb 19 15 = 0#5) ∧
      (i.descriptor.Open → v = w &&& ~~~0x7000#32) ∧
      (¬ i.descriptor.Bare → ¬ i.descriptor.Open → v = w) := by
  obtain ⟨d, hd, hw, rfl⟩ := decode_eq_ok_iff.1 h
  rw [descriptors_of_ofList hs] at hd
  refine ⟨_, encodeLine_text h (hm d hd), fun hb => ?bare, fun ho => ?gap, fun hb ho => ?closed⟩
  case bare =>
    rw [Descriptor.shownMask_of_bare hb, hw]
    refine ⟨rfl, ?_⟩
    rw [← and_bareMask_eq_self_iff, ← Descriptor.mask_of_bare hb]
    exact d.proper_pattern
  case gap => rw [Descriptor.shownMask_of_open ho]
  case closed => rw [Descriptor.shownMask_of_closed hb ho, BitVec.and_allOnes]

theorem encodeLine_text_ofList_upper :
    let up : Descriptor := ⟨"UP", .lui, .funct3Funct7 5 0x2a, .addUpper⟩
    let no : Descriptor := ⟨"NO", .opImm, .none, .compute .add⟩
    ∃ s i j, ofList [up, no] = .ok s ∧
      s.decode 0x54ab5137 = .ok i ∧ i.text = "UP x2 1420513280" ∧
      encodeLine s i.text.toList = .ok 0x54ab5137 ∧
      s.decode 0xfff17093 = .ok j ∧ j.text = "NO x1 x2 -1" ∧
      encodeLine s j.text.toList = .ok 0xfff10093 := by
  intro up no
  let s : InstructionSet := ⟨[up, no], firstConflict?_eq_none_iff.1 (by decide +kernel)⟩
  have hm : ∀ d ∈ s.descriptors, IsWord d.mnemonic.toList := by decide
  have hi : s.decode 0x54ab5137 = .ok ⟨_, up, up.operands 0x54ab5137⟩ :=
    decode_of_matches (by simp [s]) (by decide)
  have hj : s.decode 0xfff17093 = .ok ⟨_, no, no.operands 0xfff17093⟩ :=
    decode_of_matches (by simp [s]) (by decide)
  obtain ⟨v, hv, _, _, hclosed⟩ := encodeLine_text_ofList (ofList_descriptors s) hm hi
  obtain ⟨u, hu, _, hopen, _⟩ := encodeLine_text_ofList (ofList_descriptors s) hm hj
  cases hclosed (by rintro ⟨h, _⟩; cases h) (by rintro ⟨h, _⟩; cases h)
  cases hopen ⟨rfl, .inl rfl⟩
  exact ⟨s, _, _, ofList_descriptors s, hi, by decide +kernel, hv, hj, by decide +kernel, hu⟩

/-- A word of the base set is assembled from its text again, unless it is a bare instruction with a
register field that is not zero: the text does not tell these fields. -/
theorem encodeLine_text_base {i : Instruction} (h : base.decode w = .ok i) :
    encodeLine base i.text.toList =
        .ok (if Opcode.field w = Opcode.system.code then w &&& 0xfff0707f else w) ∧
      (encodeLine base i.text.toList = .ok w ↔
        (Opcode.field w = Opcode.system.code →
          w.extractLsb 11 7 = 0#5 ∧ w.extractLsb 19 15 = 0#5)) := by
  obtain ⟨d, hd, hw, rfl⟩ := decode_eq_ok_iff.1 h
  have hline := encodeLine_text h (isWord_mnemonic_base d hd)
  have hmask : w &&& d.shownMask =
      if Opcode.field w = Opcode.system.code then w &&& 0xfff0707f else w := by
    simp only [field_eq_system_iff hw, shownMask_base d hd]
    split
    · rfl
    · exact BitVec.and_allOnes
  rw [hmask] at hline
  refine ⟨hline, ?_⟩
  rw [hline, Except.ok.injEq]
  split
  · next hs => simp only [and_bareMask_eq_self_iff, hs, forall_const]
  · next hs => simp [hs]

theorem encodeLine_text_srai : ∃ i, base.decode 0x41f15093 = .ok i ∧
    encodeLine base i.text.toList = .ok 0x41f15093 := by
  let srai : Descriptor := ⟨"SRAI", .opImm, .funct3Funct7 0b101 0b0100000, .compute .sra⟩
  have h := decode_of_matches (s := base) (d := srai) (w := 0x41f15093)
    (by simp [srai, base, baseDescriptors]) (by decide)
  exact ⟨_, h, (encodeLine_text_base h).2.2 fun hs => absurd hs (by decide)⟩

theorem encodeLine_text_ecall : ∃ i, base.decode 0xf3 = .ok i ∧ i.text = "ECALL" ∧
    encodeLine base i.text.toList = .ok 0x73 ∧ encodeLine base i.text.toList ≠ .ok 0xf3 := by
  let ecall : Descriptor := ⟨"ECALL", .system, .funct3Funct12 0b000 0x000, .systemCall⟩
  have hd : ecall ∈ baseDescriptors := by simp [ecall, baseDescriptors]
  have h := decode_of_matches (s := base) (d := ecall) (w := 0xf3) hd (by decide)
  have hmask : (0xf3 : Word) &&& ecall.shownMask = 0x73 := by decide
  have hline := encodeLine_text h (isWord_mnemonic_base ecall hd)
  rw [hmask] at hline
  refine ⟨_, h, rfl, hline, ?_⟩
  rw [hline, ne_eq, Except.ok.injEq]
  decide

end InstructionSet

end Hart
