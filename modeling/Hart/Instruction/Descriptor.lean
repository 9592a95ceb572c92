import Hart.Arithmetic
import Hart.Instruction.Operands
import Hart.Memory.Access
import Hart.Text.Printing

namespace Hart

inductive Opcode
  | opImm
  | lui
  | auipc
  | op
  | jal
  | jalr
  | branch
  | load
  | store
  | system
  deriving DecidableEq, Repr

namespace Opcode

def code : Opcode → BitVec 7
  | .opImm => 0b0010011
  | .lui => 0b0110111
  | .auipc => 0b0010111
  | .op => 0b0110011
  | .jal => 0b1101111
  | .jalr => 0b1100111
  | .branch => 0b1100011
  | .load => 0b0000011
  | .store => 0b0100011
  | .system => 0b1110011

def all : List Opcode :=
  [.opImm, .lui, .auipc, .op, .jal, .jalr, .branch, .load, .store, .system]

def ofCode? (c : BitVec 7) : Option Opcode := all.find? fun o => o.code == c

def field (w : Word) : BitVec 7 := w.extractLsb 6 0

@[simp] theorem ofCode?_code (o : Opcode) : ofCode? o.code = some o := by cases o <;> rfl

theorem ofCode?_eq_some_iff {c : BitVec 7} {o : Opcode} : ofCode? c = some o ↔ c = o.code := by
  constructor
  · intro h
    have := List.find?_some (p := fun o : Opcode => o.code == c) h
    exact (eq_of_beq this).symm
  · rintro rfl
    exact ofCode?_code o

def name : Opcode → String
  | .opImm => "OpImm"
  | .lui => "Lui"
  | .auipc => "AuiPc"
  | .op => "Op"
  | .jal => "Jal"
  | .jalr => "Jalr"
  | .branch => "Branch"
  | .load => "Load"
  | .store => "Store"
  | .system => "System"

end Opcode

def Format.name : Format → String
  | .immediate => "Immediate"
  | .branch => "Branch"
  | .jump => "Jump"
  | .store => "Store"
  | .upper => "Upper"

structure Pattern where
  mask : Word
  value : Word
  deriving DecidableEq

namespace Pattern

def Matches (p : Pattern) (w : Word) : Prop := w &&& p.mask = p.value

instance (p : Pattern) (w : Word) : Decidable (p.Matches w) :=
  inferInstanceAs (Decidable (_ = _))

def Overlaps (p q : Pattern) : Prop := (p.value ^^^ q.value) &&& p.mask &&& q.mask = 0#32

instance (p q : Pattern) : Decidable (p.Overlaps q) := inferInstanceAs (Decidable (_ = _))

end Pattern

/-- The fields beside the opcode that tell an instruction from the others of its group. Values that
are too wide for a field are cut. -/
inductive Locator
  | none
  | funct3 (a : Word)
  | funct3Funct7 (a b : Word)
  | funct3Funct12 (a b : Word)
  deriving DecidableEq

namespace Locator

def funct3Range : BitRange := { lo := 12, hi := 14 }

def funct7Range : BitRange := { lo := 25, hi := 31 }

def funct12Range : BitRange := { lo := 20, hi := 31 }

def pattern : Locator → Pattern
  | .none => ⟨0, 0⟩
  | .funct3 a => ⟨0x7000, funct3Range.set 0 a⟩
  | .funct3Funct7 a b => ⟨0xfe007000, funct7Range.set (funct3Range.set 0 a) b⟩
  | .funct3Funct12 a b => ⟨0xfff07000, funct12Range.set (funct3Range.set 0 a) b⟩

def text : Locator → String
  | .none => "None"
  | .funct3 a => "Funct3(" ++ Numeral.decimal a.toNat ++ ")"
  | .funct3Funct7 a b =>
    "Funct3Funct7(" ++ Numeral.decimal a.toNat ++ ", " ++ Numeral.decimal b.toNat ++ ")"
  | .funct3Funct12 a b =>
    "Funct3Funct12(" ++ Numeral.decimal a.toNat ++ ", " ++ Numeral.decimal b.toNat ++ ")"

end Locator

/-- How the operands of an entry are written. A shift amount is the low five bits of the immediate,
whose other bits choose the instruction; a bare instruction has no operands. -/
inductive Shape : Format → Type
  | plain : Shape f
  | shift : Shape .immediate
  | bare : Shape .immediate

def Shape.of : (f : Format) → Locator → Shape f
  | .immediate, .funct3Funct7 .. => .shift
  | .immediate, .funct3Funct12 .. => .bare
  | _, _ => .plain

def Shape.operands : {f : Format} → Shape f → Word → Operands f
  | f, .plain, w => Operands.decode f w
  | _, .bare, w => Operands.decode .immediate w
  | _, .shift, w =>
    match Operands.decode .immediate w with
    | .immediate rd rs1 imm => .immediate rd rs1 (imm &&& 0x1f)

def Shape.words : {f : Format} → Shape f → Operands f → List String
  | _, .bare, _ => []
  | _, _, p => p.words

inductive Action : Format → Type
  | compute (op : Operation) : Action .immediate
  | load (width : Width) (signed : Bool) : Action .immediate
  | jumpRegister : Action .immediate
  | systemCall : Action .immediate
  | systemBreak : Action .immediate
  | branch (cond : Condition) : Action .branch
  | jump : Action .jump
  | store (width : Width) : Action .store
  | loadUpper : Action .upper
  | addUpper : Action .upper
  deriving DecidableEq

structure Descriptor where
  mnemonic : String
  opcode : Opcode
  locator : Locator
  {format : Format}
  action : Action format

namespace Descriptor

def shape (d : Descriptor) : Shape d.format := Shape.of d.format d.locator

def pattern (d : Descriptor) : Pattern :=
  ⟨0x7f ||| d.locator.pattern.mask, d.opcode.code.setWidth 32 ||| d.locator.pattern.value⟩

def encode (d : Descriptor) (p : Operands d.format) : Word :=
  (p.encode &&& ~~~d.pattern.mask) ||| d.pattern.value

def operands (d : Descriptor) (w : Word) : Operands d.format := d.shape.operands w

def text (d : Descriptor) : String :=
  "Descriptor \x7b mnemonic: " ++ Text.quoted d.mnemonic ++ ", opcode: " ++ d.opcode.name ++
    ", locator: " ++ d.locator.text ++ ", format: " ++ d.format.name ++ " \x7d"

end Descriptor

end Hart
