import Hart.Word

namespace Hart

inductive Operation
  | add
  | slt
  | sltu
  | xor
  | or
  | and
  | sll
  | srl
  | sra
  deriving DecidableEq, Repr

def Operation.apply : Operation → Word → Word → Word
  | .add, a, b => a + b
  | .slt, a, b => if a.slt b then 1 else 0
  | .sltu, a, b => if a.ult b then 1 else 0
  | .xor, a, b => a ^^^ b
  | .or, a, b => a ||| b
  | .and, a, b => a &&& b
  | .sll, a, b => a <<< (b.toNat % 32)
  | .srl, a, b => a >>> (b.toNat % 32)
  | .sra, a, b => a.sshiftRight (b.toNat % 32)

inductive Condition
  | eq
  | ne
  | lt
  | ge
  | ltu
  | geu
  deriving DecidableEq, Repr

def Condition.holds : Condition → Word → Word → Bool
  | .eq, a, b => a == b
  | .ne, a, b => a != b
  | .lt, a, b => a.slt b
  | .ge, a, b => !a.slt b
  | .ltu, a, b => a.ult b
  | .geu, a, b => !a.ult b

end Hart
