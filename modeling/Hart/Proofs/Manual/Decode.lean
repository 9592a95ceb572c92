import Hart.Proofs.Manual.Fields

namespace Hart

theorem eq_iff_field_eq (w : Word) (lo n : Nat) (x : BitVec n) :
    w.extractLsb' lo n = x ↔ Manual.field w.toNat lo n = x.toNat := by
  rw [Manual.field_toNat, BitVec.toNat_inj]

def Locator.Names : Locator → Nat → Prop
  | .none, _ => True
  | .funct3 a, w => Manual.field w 12 3 = a.toNat % 2 ^ 3
  | .funct3Funct7 a b, w =>
    Manual.field w 12 3 = a.toNat % 2 ^ 3 ∧ Manual.field w 25 7 = b.toNat % 2 ^ 7
  | .funct3Funct12 a b, w =>
    Manual.field w 12 3 = a.toNat % 2 ^ 3 ∧ Manual.field w 20 12 = b.toNat % 2 ^ 12

theorem Locator.selects_iff_names (l : Locator) (w : Word) : l.Selects w ↔ l.Names w.toNat := by
  cases l with
  | none => rfl
  | funct3 a => exact eq_iff_field_eq w 12 3 (a.setWidth 3)
  | funct3Funct7 a b =>
    exact and_congr (eq_iff_field_eq w 12 3 (a.setWidth 3)) (eq_iff_field_eq w 25 7 (b.setWidth 7))
  | funct3Funct12 a b =>
    exact and_congr (eq_iff_field_eq w 12 3 (a.setWidth 3)) (eq_iff_field_eq w 20 12 (b.setWidth 12))

theorem Descriptor.matches_iff_names (d : Descriptor) (w : Word) : d.pattern.Matches w ↔
    Manual.field w.toNat 0 7 = d.opcode.code.toNat ∧ d.locator.Names w.toNat := by
  rw [d.matches_pattern, Locator.selects_iff_names]
  exact and_congr (eq_iff_field_eq w 0 7 d.opcode.code) Iff.rfl

namespace Manual

theorem Mnemonic.ctorIdx_lt (i : Mnemonic) : i.ctorIdx < baseDescriptors.length := by
  cases i <;> decide

def Mnemonic.descriptor (i : Mnemonic) : Descriptor := baseDescriptors.get ⟨i.ctorIdx, i.ctorIdx_lt⟩

theorem Mnemonic.descriptor_mem (i : Mnemonic) : i.descriptor ∈ baseDescriptors :=
  List.get_mem _ _

theorem Mnemonic.ctorIdx_ofNat : ∀ n : Fin baseDescriptors.length, (ofNat n).ctorIdx = n := by
  decide

theorem Mnemonic.exists_descriptor {d : Descriptor} (h : d ∈ baseDescriptors) :
    ∃ i : Mnemonic, i.descriptor = d := by
  obtain ⟨n, rfl⟩ := List.get_of_mem h
  exact ⟨ofNat n, congrArg baseDescriptors.get (Fin.ext (ctorIdx_ofNat n))⟩

variable {w : Nat} {i : Mnemonic}

def Mnemonic.Names (i : Mnemonic) (w : Nat) : Prop :=
  field w 0 7 = i.descriptor.opcode.code.toNat ∧ i.descriptor.locator.Names w

theorem identify?_of_names (h : i.Names w) : identify? w = some i := by
  obtain ⟨ho, hl⟩ := h
  -- The fields that the entry of an instruction asks for choose its leaf of the map.
  cases i
  all_goals
    simp [Mnemonic.descriptor, baseDescriptors, Mnemonic.ctorIdx, Locator.Names, Opcode.code] at ho hl
    simp [identify?, opImm?, branch?, load?, store?, system?, ho, hl]

theorem names_of_identify? (h : identify? w = some i) : i.Names w := by
  simp only [identify?, opImm?, branch?, load?, store?, system?] at h
  repeat' split at h
  all_goals cases h
  all_goals
    simp [Mnemonic.Names, Mnemonic.descriptor, baseDescriptors, Mnemonic.ctorIdx, Locator.Names,
      Opcode.code, *]

theorem decode_eq_ok_iff {w : Word} {e : Instruction} : InstructionSet.base.decode w = .ok e ↔
    ∃ i, identify? w.toNat = some i ∧ e = ⟨w, i.descriptor, i.descriptor.operands w⟩ := by
  rw [InstructionSet.decode_eq_ok_iff]
  constructor
  · rintro ⟨d, hd, hw, rfl⟩
    obtain ⟨i, rfl⟩ := Mnemonic.exists_descriptor hd
    exact ⟨i, identify?_of_names ((i.descriptor.matches_iff_names w).1 hw), rfl⟩
  · rintro ⟨i, hi, rfl⟩
    exact ⟨i.descriptor, i.descriptor_mem,
      (i.descriptor.matches_iff_names w).2 (names_of_identify? hi), rfl⟩

end Manual

end Hart
