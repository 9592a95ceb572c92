import Hart.Register

/-! The five instruction formats of the 32-bit base set. Operands are indexed by their format;
`encode` and `decode` write and read the bits of a word in the order in which the manual draws them,
highest first. -/

namespace Hart

inductive Format
  | immediate
  | branch
  | jump
  | store
  | upper
  deriving DecidableEq, Repr

/-- Branch and jump immediates are byte offsets; the immediate of the upper format stands in the
upper twenty bits of the word. -/
inductive Operands : Format → Type
  | immediate (rd rs1 : Register) (imm : Word) : Operands .immediate
  | branch (rs1 rs2 : Register) (imm : Word) : Operands .branch
  | jump (rd : Register) (imm : Word) : Operands .jump
  | store (rs1 rs2 : Register) (imm : Word) : Operands .store
  | upper (rd : Register) (imm : Word) : Operands .upper
  deriving DecidableEq

namespace Operands

/-- The operand bits of a word. The opcode, and the minor function field of the formats that have
one, stay zero, and immediates that are too wide are cut. -/
def encode : Operands f → Word
  | .immediate rd rs1 imm => imm.extractLsb 11 0 ++ rs1 ++ 0#3 ++ rd ++ 0#7
  | .branch rs1 rs2 imm =>
    imm.extractLsb 12 12 ++ imm.extractLsb 10 5 ++ rs2 ++ rs1 ++ 0#3 ++ imm.extractLsb 4 1 ++
      imm.extractLsb 11 11 ++ 0#7
  | .jump rd imm =>
    imm.extractLsb 20 20 ++ imm.extractLsb 10 1 ++ imm.extractLsb 11 11 ++
      imm.extractLsb 19 12 ++ rd ++ 0#7
  | .store rs1 rs2 imm => imm.extractLsb 11 5 ++ rs2 ++ rs1 ++ 0#3 ++ imm.extractLsb 4 0 ++ 0#7
  | .upper rd imm => imm.extractLsb 31 12 ++ rd ++ 0#7

def decode : (f : Format) → Word → Operands f
  | .immediate, w =>
    .immediate (w.extractLsb 11 7) (w.extractLsb 19 15) ((w.extractLsb 31 20).signExtend 32)
  | .branch, w =>
    .branch (w.extractLsb 19 15) (w.extractLsb 24 20)
      ((w.extractLsb 31 31 ++ w.extractLsb 7 7 ++ w.extractLsb 30 25 ++ w.extractLsb 11 8 ++
        0#1).signExtend 32)
  | .jump, w =>
    .jump (w.extractLsb 11 7)
      ((w.extractLsb 31 31 ++ w.extractLsb 19 12 ++ w.extractLsb 20 20 ++ w.extractLsb 30 21 ++
        0#1).signExtend 32)
  | .store, w =>
    .store (w.extractLsb 19 15) (w.extractLsb 24 20)
      ((w.extractLsb 31 25 ++ w.extractLsb 11 7).signExtend 32)
  | .upper, w => .upper (w.extractLsb 11 7) (w.extractLsb 31 12 ++ 0#12)

def words : Operands f → List String
  | .immediate rd rs1 imm => [rd.text, rs1.text, Numeral.signed imm.toInt]
  | .branch rs1 rs2 imm => [rs1.text, rs2.text, Numeral.signed imm.toInt]
  | .jump rd imm => [rd.text, Numeral.signed imm.toInt]
  | .store rs1 rs2 imm => [rs2.text, rs1.text, Numeral.signed imm.toInt]
  | .upper rd imm => [rd.text, Numeral.decimal imm.toNat]

def text (p : Operands f) : String := " ".intercalate p.words

end Operands

end Hart
