import Hart.Instruction.Descriptor

namespace Hart

inductive TableError
  | ambiguous (first second : String)
  | duplicateMnemonic (mnemonic : String)
  deriving DecidableEq

def TableError.message : TableError → String
  | .ambiguous first second => first ++ " and " ++ second ++ " can match the same word"
  | .duplicateMnemonic mnemonic => "mnemonic " ++ mnemonic ++ " appears more than once"

inductive DecodeError
  | illegalZero
  | unknownOpcode (word : Word)
  | noMatch (word : Word)
  deriving DecidableEq

def DecodeError.message : DecodeError → String
  | .illegalZero => "illegal instruction 0x00000000"
  | .unknownOpcode w =>
    "unknown opcode " ++ Numeral.opcode (Opcode.field w).toNat ++ " in " ++ Numeral.address w.toNat
  | .noMatch w => "no instruction matches " ++ Numeral.address w.toNat

def Descriptor.Compatible (d e : Descriptor) : Prop :=
  d.mnemonic ≠ e.mnemonic ∧ ¬ d.pattern.Overlaps e.pattern

def Descriptor.conflict? (d e : Descriptor) : Option TableError :=
  if d.mnemonic = e.mnemonic then some (.duplicateMnemonic d.mnemonic)
  else if d.pattern.Overlaps e.pattern then some (.ambiguous d.mnemonic e.mnemonic)
  else none

theorem Descriptor.conflict?_eq_none_iff {d e : Descriptor} :
    d.conflict? e = none ↔ d.Compatible e := by
  unfold conflict? Compatible
  split <;> simp_all

def firstConflict? : List Descriptor → Option TableError
  | [] => none
  | d :: ds => (ds.findSome? d.conflict?).or (firstConflict? ds)

theorem firstConflict?_eq_none_iff {ds : List Descriptor} :
    firstConflict? ds = none ↔ ds.Pairwise Descriptor.Compatible := by
  induction ds with
  | nil => simp [firstConflict?]
  | cons d ds ih =>
    simp [firstConflict?, ih, Descriptor.conflict?_eq_none_iff]

structure InstructionSet where
  descriptors : List Descriptor
  compatible : descriptors.Pairwise Descriptor.Compatible

structure Instruction where
  word : Word
  descriptor : Descriptor
  operands : Operands descriptor.format

namespace InstructionSet

def ofList (ds : List Descriptor) : Except TableError InstructionSet :=
  match h : firstConflict? ds with
  | some e => .error e
  | none => .ok ⟨ds, firstConflict?_eq_none_iff.1 h⟩

def find? (s : InstructionSet) (mnemonic : String) : Option Descriptor :=
  s.descriptors.find? fun d => d.mnemonic == mnemonic

def decode (s : InstructionSet) (w : Word) : Except DecodeError Instruction :=
  if w = 0#32 then .error .illegalZero
  else if Opcode.ofCode? (Opcode.field w) = none then .error (.unknownOpcode w)
  else match s.descriptors.find? fun d => d.pattern.Matches w with
    | none => .error (.noMatch w)
    | some d => .ok ⟨w, d, d.operands w⟩

end InstructionSet

namespace Instruction

def mnemonic (i : Instruction) : String := i.descriptor.mnemonic

def text (i : Instruction) : String :=
  " ".intercalate (i.mnemonic :: i.descriptor.shape.words i.operands)

end Instruction

end Hart
