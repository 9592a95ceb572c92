import Hart.Instruction.Descriptor

namespace Hart.Assembly

namespace Literal

def digit? (base : Nat) (c : Char) : Option Nat :=
  let value :=
    if c.isDigit then c.toNat - '0'.toNat
    else if 'a' ≤ c ∧ c ≤ 'f' then c.toNat - 'a'.toNat + 10
    else if 'A' ≤ c ∧ c ≤ 'F' then c.toNat - 'A'.toNat + 10
    else base
  if value < base then some value else none

def digits? (base : Nat) (s : List Char) : Option Nat :=
  if s = [] then none
  else s.foldlM (fun n c => (digit? base c).map (base * n + ·)) 0

def magnitude? : List Char → Option Nat
  | '0' :: 'x' :: s => digits? 16 s
  | '0' :: 'X' :: s => digits? 16 s
  | s => digits? 10 s

def value? : List Char → Option Int
  | '-' :: s => (magnitude? s).map fun n => -n
  | '+' :: s => (magnitude? s).map fun n => n
  | s => (magnitude? s).map fun n => n

end Literal

inductive LineError
  | unknownMnemonic (name : String)
  | invalidRegister (token : String)
  | invalidInteger (token : String)
  | outOfRange (token : String) (bits : Nat)
  | misaligned (token : String)
  | wrongOperandCount (expected found : Nat)
  deriving DecidableEq

def LineError.message : LineError → String
  | .unknownMnemonic name => "unknown mnemonic `" ++ name ++ "`"
  | .invalidRegister token => "`" ++ token ++ "` is not a register"
  | .invalidInteger token => "`" ++ token ++ "` is not an integer"
  | .outOfRange token bits => "`" ++ token ++ "` does not fit in " ++ Numeral.decimal bits ++ " bits"
  | .misaligned token => "offset `" ++ token ++ "` is odd"
  | .wrongOperandCount expected found =>
    "expected " ++ Numeral.decimal expected ++ " operands, found " ++ Numeral.decimal found

abbrev Tokens := List String

namespace Tokens

def expectCount (ts : Tokens) (n : Nat) : Except LineError Unit :=
  if ts.length = n then .ok () else .error (.wrongOperandCount n ts.length)

def token (ts : Tokens) (i : Nat) : Except LineError String :=
  match ts[i]? with
  | some t => .ok t
  | none => .error (.wrongOperandCount (i + 1) ts.length)

def register (ts : Tokens) (i : Nat) : Except LineError Register := do
  let t ← ts.token i
  match Register.lookup? t with
  | some r => .ok r
  | none => .error (.invalidRegister t)

/-- The token at `i` and the number that it writes, which is held in 64 bits with a sign and has an
opposite there. -/
def integer (ts : Tokens) (i : Nat) : Except LineError (String × Int) := do
  let t ← ts.token i
  match Literal.value? t.toList with
  | none => .error (.invalidInteger t)
  | some v => if v.natAbs < 0x8000000000000000 then .ok (t, v) else .error (.outOfRange t 64)

def signed (ts : Tokens) (i bits : Nat) : Except LineError Word := do
  let (t, v) ← ts.integer i
  if fitsSigned v bits then .ok (BitVec.ofInt 32 v) else .error (.outOfRange t bits)

def unsigned (ts : Tokens) (i bits : Nat) : Except LineError Word := do
  let (t, v) ← ts.integer i
  if fitsUnsigned v bits then .ok (BitVec.ofInt 32 v) else .error (.outOfRange t bits)

def offset (ts : Tokens) (i bits : Nat) : Except LineError Word := do
  let v ← ts.signed i bits
  if v.getLsbD 0 then .error (.misaligned (← ts.token i)) else .ok v

end Tokens

end Hart.Assembly

namespace Hart

open Assembly

def Operands.read : (f : Format) → Tokens → Except LineError (Operands f)
  | .immediate, ts => do
    ts.expectCount 3
    return .immediate (← ts.register 0) (← ts.register 1) (← ts.signed 2 12)
  | .branch, ts => do
    ts.expectCount 3
    return .branch (← ts.register 0) (← ts.register 1) (← ts.offset 2 13)
  | .jump, ts => do
    ts.expectCount 2
    return .jump (← ts.register 0) (← ts.offset 1 21)
  | .store, ts => do
    ts.expectCount 3
    let rs2 ← ts.register 0
    return .store (← ts.register 1) rs2 (← ts.signed 2 12)
  | .upper, ts => do
    ts.expectCount 2
    return .upper (← ts.register 0) ((← ts.unsigned 1 32) &&& 0xfffff000)

def Shape.read : {f : Format} → Shape f → Locator → Tokens → Except LineError (Operands f)
  | f, .plain, _, ts => Operands.read f ts
  | _, .shift, _, ts => do
    ts.expectCount 3
    return .immediate (← ts.register 0) (← ts.register 1) (← ts.unsigned 2 5)
  | _, .bare, l, ts => do
    ts.expectCount 0
    return .immediate 0 0 (signExtend (Locator.funct12Range.get l.pattern.value) 12)

def Descriptor.read (d : Descriptor) (ts : Tokens) : Except LineError (Operands d.format) :=
  d.shape.read d.locator ts

end Hart
