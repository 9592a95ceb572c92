import Hart.Instruction.Table

namespace Hart

def baseDescriptors : List Descriptor :=
  [ ⟨"ADDI", .opImm, .funct3 0b000, .compute .add⟩,
    ⟨"SLTI", .opImm, .funct3 0b010, .compute .slt⟩,
    ⟨"SLTIU", .opImm, .funct3 0b011, .compute .sltu⟩,
    ⟨"XORI", .opImm, .funct3 0b100, .compute .xor⟩,
    ⟨"ORI", .opImm, .funct3 0b110, .compute .or⟩,
    ⟨"ANDI", .opImm, .funct3 0b111, .compute .and⟩,
    ⟨"SLLI", .opImm, .funct3Funct7 0b001 0b0000000, .compute .sll⟩,
    ⟨"SRLI", .opImm, .funct3Funct7 0b101 0b0000000, .compute .srl⟩,
    ⟨"SRAI", .opImm, .funct3Funct7 0b101 0b0100000, .compute .sra⟩,
    ⟨"LUI", .lui, .none, .loadUpper⟩,
    ⟨"AUIPC", .auipc, .none, .addUpper⟩,
    ⟨"JAL", .jal, .none, .jump⟩,
    ⟨"JALR", .jalr, .funct3 0b000, .jumpRegister⟩,
    ⟨"BEQ", .branch, .funct3 0b000, .branch .eq⟩,
    ⟨"BNE", .branch, .funct3 0b001, .branch .ne⟩,
    ⟨"BLT", .branch, .funct3 0b100, .branch .lt⟩,
    ⟨"BGE", .branch, .funct3 0b101, .branch .ge⟩,
    ⟨"BLTU", .branch, .funct3 0b110, .branch .ltu⟩,
    ⟨"BGEU", .branch, .funct3 0b111, .branch .geu⟩,
    ⟨"LB", .load, .funct3 0b000, .load .byte true⟩,
    ⟨"LH", .load, .funct3 0b001, .load .half true⟩,
    ⟨"LW", .load, .funct3 0b010, .load .word false⟩,
    ⟨"LBU", .load, .funct3 0b100, .load .byte false⟩,
    ⟨"LHU", .load, .funct3 0b101, .load .half false⟩,
    ⟨"SB", .store, .funct3 0b000, .store .byte⟩,
    ⟨"SH", .store, .funct3 0b001, .store .half⟩,
    ⟨"SW", .store, .funct3 0b010, .store .word⟩,
    ⟨"ECALL", .system, .funct3Funct12 0b000 0x000, .systemCall⟩,
    ⟨"EBREAK", .system, .funct3Funct12 0b000 0x001, .systemBreak⟩ ]

def InstructionSet.base : InstructionSet where
  descriptors := baseDescriptors
  compatible := firstConflict?_eq_none_iff.1 (by decide +kernel)

end Hart
