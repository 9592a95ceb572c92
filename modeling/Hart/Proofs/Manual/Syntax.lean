import Hart.Proofs.Manual.Decode

namespace Hart.Manual

def Mnemonic.name : Mnemonic → String
  | .addi => "ADDI"
  | .slti => "SLTI"
  | .sltiu => "SLTIU"
  | .xori => "XORI"
  | .ori => "ORI"
  | .andi => "ANDI"
  | .slli => "SLLI"
  | .srli => "SRLI"
  | .srai => "SRAI"
  | .lui => "LUI"
  | .auipc => "AUIPC"
  | .jal => "JAL"
  | .jalr => "JALR"
  | .beq => "BEQ"
  | .bne => "BNE"
  | .blt => "BLT"
  | .bge => "BGE"
  | .bltu => "BLTU"
  | .bgeu => "BGEU"
  | .lb => "LB"
  | .lh => "LH"
  | .lw => "LW"
  | .lbu => "LBU"
  | .lhu => "LHU"
  | .sb => "SB"
  | .sh => "SH"
  | .sw => "SW"
  | .ecall => "ECALL"
  | .ebreak => "EBREAK"

inductive Form
  | immediate
  | shift
  | branch
  | store
  | jump
  | upper
  | bare
  deriving DecidableEq

def Mnemonic.form : Mnemonic → Form
  | .addi | .slti | .sltiu | .xori | .ori | .andi | .jalr | .lb | .lh | .lw | .lbu | .lhu => .immediate
  | .slli | .srli | .srai => .shift
  | .beq | .bne | .blt | .bge | .bltu | .bgeu => .branch
  | .sb | .sh | .sw => .store
  | .jal => .jump
  | .lui | .auipc => .upper
  | .ecall | .ebreak => .bare

/-- The operands `vs`, in the order in which they are written, stand in the word. The upper form drops the
low bits of its number, and the registers of a bare instruction are zero. -/
def Form.Holds : Form → (w : Nat) → (vs : List Int) → Prop
  | .immediate, w, [a, b, v] => a = (rd w).val ∧ b = (rs1 w).val ∧ v = immI w
  | .shift, w, [a, b, v] => a = (rd w).val ∧ b = (rs1 w).val ∧ v = shamt w
  | .branch, w, [a, b, v] => a = (rs1 w).val ∧ b = (rs2 w).val ∧ v = immB w
  | .store, w, [a, b, v] => a = (rs2 w).val ∧ b = (rs1 w).val ∧ v = immS w
  | .jump, w, [a, v] => a = (rd w).val ∧ v = immJ w
  | .upper, w, [a, v] => a = (rd w).val ∧ v / 2 ^ 12 * 2 ^ 12 = immU w
  | .bare, w, [] => (rd w).val = 0 ∧ (rs1 w).val = 0
  | _, _, _ => False

structure Mnemonic.Encodes (i : Mnemonic) (vs : List Int) (w : Nat) : Prop where
  identify : identify? w = some i
  holds : i.form.Holds w vs

theorem Mnemonic.mnemonic_descriptor (i : Mnemonic) : i.descriptor.mnemonic = i.name := by
  cases i <;> rfl

variable {w x : Word} {a b : Register} {v : Int}

theorem toNat_eq_register_iff (lo : Nat) :
    (a.toNat : Int) = (register w.toNat lo).val ↔ w.extractLsb' lo 5 = a := by
  change (a.toNat : Int) = (field w.toNat lo 5 : Nat) ↔ _
  rw [field_toNat, Int.natCast_inj, BitVec.toNat_inj, eq_comm]

theorem eq_ofInt_iff (hv : -2 ^ 31 ≤ v ∧ v < 2 ^ 31) : x = BitVec.ofInt 32 v ↔ v = x.toInt := by
  rw [← BitVec.toInt_inj, BitVec.toInt_ofInt, Int.bmod_eq_of_le (by omega) (by omega), eq_comm]

theorem eq_ofInt_iff_toNat (hv : 0 ≤ v ∧ v < 2 ^ 32) : x = BitVec.ofInt 32 v ↔ v = x.toNat := by
  obtain ⟨n, rfl⟩ := Int.eq_ofNat_of_zero_le hv.1
  have hn : n < 2 ^ 32 := by exact_mod_cast hv.2
  rw [← BitVec.toNat_inj, BitVec.ofInt_natCast, BitVec.toNat_ofNat, Nat.mod_eq_of_lt hn, eq_comm]
  exact Int.natCast_inj.symm

namespace Form

theorem holds_immediate_iff (hv : -2 ^ 31 ≤ v ∧ v < 2 ^ 31) :
    Form.immediate.Holds w.toNat [a.toNat, b.toNat, v] ↔
      Operands.decode .immediate w = .immediate a b (.ofInt 32 v) := by
  simp only [Holds, rd, rs1, toNat_eq_register_iff, immI_toNat, ← eq_ofInt_iff hv, Operands.decode,
    Operands.immediate.injEq]
  rfl

theorem holds_shift_iff (hv : 0 ≤ v ∧ v < 2 ^ 32) :
    Form.shift.Holds w.toNat [a.toNat, b.toNat, v] ↔
      Shape.shift.operands w = .immediate a b (.ofInt 32 v) := by
  simp only [Holds, rd, rs1, toNat_eq_register_iff, shamt_toNat, ← eq_ofInt_iff_toNat hv,
    Shape.operands, Operands.decode, Operands.immediate.injEq]
  rfl

theorem holds_branch_iff (hv : -2 ^ 31 ≤ v ∧ v < 2 ^ 31) :
    Form.branch.Holds w.toNat [a.toNat, b.toNat, v] ↔
      Operands.decode .branch w = .branch a b (.ofInt 32 v) := by
  simp only [Holds, rs1, rs2, toNat_eq_register_iff, immB_toNat, ← eq_ofInt_iff hv, Operands.decode,
    Operands.branch.injEq]
  rfl

theorem holds_store_iff (hv : -2 ^ 31 ≤ v ∧ v < 2 ^ 31) :
    Form.store.Holds w.toNat [a.toNat, b.toNat, v] ↔
      Operands.decode .store w = .store b a (.ofInt 32 v) := by
  simp only [Holds, rs1, rs2, toNat_eq_register_iff, immS_toNat, ← eq_ofInt_iff hv, Operands.decode,
    Operands.store.injEq]
  exact and_left_comm

theorem holds_jump_iff (hv : -2 ^ 31 ≤ v ∧ v < 2 ^ 31) :
    Form.jump.Holds w.toNat [a.toNat, v] ↔ Operands.decode .jump w = .jump a (.ofInt 32 v) := by
  simp only [Holds, rd, toNat_eq_register_iff, immJ_toNat, ← eq_ofInt_iff hv, Operands.decode,
    Operands.jump.injEq]
  rfl

theorem toNat_and_upperMask (v : Word) : (v &&& 0xfffff000).toNat = v.toNat / 2 ^ 12 * 2 ^ 12 := by
  have h : v &&& 0xfffff000 = v.extractLsb 31 12 ++ 0#12 := by
    apply BitVec.eq_of_getLsbD_eq
    intro i hi
    rw [BitVec.getLsbD_and, Operands.getLsbD_upperMask hi, BitVec.getLsbD_append,
      BitVec.getLsbD_zero, BitVec.getLsbD_extractLsb]
    grind
  have hv := v.isLt
  rw [h, ← immU_toNat, immU, field, Nat.mod_eq_of_lt (by omega)]

theorem holds_upper_iff (hv : 0 ≤ v ∧ v < 2 ^ 32) : Form.upper.Holds w.toNat [a.toNat, v] ↔
    Operands.decode .upper w = .upper a (.ofInt 32 v &&& 0xfffff000) := by
  obtain ⟨n, rfl⟩ := Int.eq_ofNat_of_zero_le hv.1
  have hn : n < 2 ^ 32 := by exact_mod_cast hv.2
  have himm : (n : Int) / 2 ^ 12 * 2 ^ 12 = immU w.toNat ↔
      w.extractLsb 31 12 ++ 0#12 = BitVec.ofInt 32 n &&& 0xfffff000 := by
    rw [immU_toNat, ← BitVec.toNat_inj, toNat_and_upperMask, BitVec.ofInt_natCast, BitVec.toNat_ofNat,
      Nat.mod_eq_of_lt hn, eq_comm]
    norm_cast
  simp only [Holds, rd, toNat_eq_register_iff, himm, Operands.decode, Operands.upper.injEq]
  rfl

theorem holds_bare_iff : Form.bare.Holds w.toNat [] ↔
    Operands.decode .immediate w = .immediate 0 0 ((w.extractLsb 31 20).signExtend 32) := by
  have hzero (lo : Nat) : (register w.toNat lo).val = 0 ↔ w.extractLsb' lo 5 = 0 := by
    rw [← toNat_eq_register_iff]
    exact eq_comm.trans Int.natCast_inj.symm
  simp only [Holds, rd, rs1, hzero, Operands.decode, Operands.immediate.injEq, and_true]
  rfl

end Form

end Hart.Manual
