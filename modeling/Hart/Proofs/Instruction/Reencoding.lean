import Hart.Proofs.Assembly.Disassembly

namespace Hart

namespace Descriptor

variable {d : Descriptor}

def coveredMask (d : Descriptor) : Word := d.format.operandMask ||| d.pattern.mask

theorem coveredMask_of_not_bare (h : ¬ d.Bare) : d.coveredMask = d.shownMask := by
  obtain ⟨m, o, l, x⟩ := d
  rename_i f
  cases f with
  | immediate =>
    cases l with
    | none => rfl
    | funct3 a => rfl
    | funct3Funct7 a b => rfl
    | funct3Funct12 a b => exact absurd ⟨rfl, a, b, rfl⟩ h
  | branch => rfl
  | jump => rfl
  | store => rfl
  | upper => rfl

theorem Open.not_bare (h : d.Open) : ¬ d.Bare := by
  rintro ⟨_, a, b, hl⟩
  rw [h.1] at hl
  cases hl

theorem coveredMask_of_open (h : d.Open) : d.coveredMask = ~~~0x7000#32 := by
  rw [coveredMask_of_not_bare h.not_bare, shownMask_of_open h]

theorem coveredMask_of_not_open (h : ¬ d.Open) : d.coveredMask = BitVec.allOnes 32 := by
  by_cases hb : d.Bare
  · rw [coveredMask, mask_of_bare hb, hb.1]
    decide
  · rw [coveredMask_of_not_bare hb, shownMask_of_closed hb h]

theorem not_open_base : ∀ d ∈ baseDescriptors, ¬ d.Open := by
  unfold Open
  decide

end Descriptor

namespace InstructionSet

variable {s : InstructionSet} {w : Word} {i : Instruction}

theorem encode_operands_of_decode (h : s.decode w = .ok i) :
    i.descriptor ∈ s.descriptors ∧
      i.descriptor.encode i.operands = w &&& i.descriptor.coveredMask := by
  obtain ⟨d, hd, hw, rfl⟩ := decode_eq_ok_iff.1 h
  exact ⟨hd, Descriptor.encode_operands hw⟩

/-- In every table a decoded word is encoded again from its entry and its operands: to itself, or
without its minor function field if the entry leaves this field open. No entry of the base table
does. -/
theorem encode_of_decode :
    (∀ ds s, ofList ds = .ok s → ∀ w i, s.decode w = .ok i → i.descriptor ∈ ds ∧
      (i.descriptor.Open → i.descriptor.encode i.operands = w &&& ~~~0x7000#32) ∧
      (¬ i.descriptor.Open → i.descriptor.encode i.operands = w)) ∧
    ∀ w i, base.decode w = .ok i → i.descriptor.encode i.operands = w := by
  constructor
  · intro ds s hs w i h
    obtain ⟨hd, he⟩ := encode_operands_of_decode h
    rw [descriptors_of_ofList hs] at hd
    refine ⟨hd, fun ho => ?_, fun ho => ?_⟩
    · rw [he, Descriptor.coveredMask_of_open ho]
    · rw [he, Descriptor.coveredMask_of_not_open ho, BitVec.and_allOnes]
  · intro w i h
    obtain ⟨hd, he⟩ := encode_operands_of_decode h
    rw [he, Descriptor.coveredMask_of_not_open (Descriptor.not_open_base _ hd), BitVec.and_allOnes]

theorem encode_of_decode_ecall :
    let b : Descriptor := ⟨"B", .branch, .none, .branch .eq⟩
    (∃ s i, ofList [b] = .ok s ∧ s.decode 0xfe20fee3 = .ok i ∧
      i.descriptor.encode i.operands = 0xfe208ee3) ∧
    (∃ i, base.decode 0xf80f3 = .ok i ∧ i.mnemonic = "ECALL" ∧
      i.descriptor.encode i.operands = 0xf80f3) ∧
    ∃ i, base.decode 0x41f15093 = .ok i ∧ i.mnemonic = "SRAI" ∧
      i.descriptor.encode i.operands = 0x41f15093 := by
  intro b
  let s : InstructionSet := ⟨[b], List.pairwise_singleton _ _⟩
  have hb : s.decode 0xfe20fee3 = .ok ⟨_, b, b.operands 0xfe20fee3⟩ :=
    decode_of_matches (by simp [s]) (by decide)
  have hcall : base.decode 0xf80f3 =
      .ok ⟨0xf80f3, ⟨"ECALL", .system, .funct3Funct12 0 0, .systemCall⟩, .immediate 1 31 0⟩ := by rfl
  have hshift : base.decode 0x41f15093 =
      .ok ⟨0x41f15093, ⟨"SRAI", .opImm, .funct3Funct7 5 0x20, .compute .sra⟩, .immediate 1 2 31⟩ := by
    rfl
  obtain ⟨hlist, hbase⟩ := encode_of_decode
  obtain ⟨_, hopen, _⟩ := hlist [b] s (ofList_descriptors s) _ _ hb
  exact ⟨⟨s, _, ofList_descriptors s, hb, hopen ⟨rfl, .inr (.inl rfl)⟩⟩,
    ⟨_, hcall, rfl, hbase _ _ hcall⟩, _, hshift, rfl, hbase _ _ hshift⟩

end InstructionSet

end Hart
