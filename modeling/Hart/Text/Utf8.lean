import Hart.Text.Printing
import Hart.Word

namespace Hart.Text.Utf8

inductive Fault
  | invalid (start length : Nat)
  | incomplete (start : Nat)
  deriving DecidableEq

def Fault.message : Fault → String
  | .invalid start length =>
    "invalid utf-8 sequence of " ++ Numeral.decimal length ++ " bytes from index " ++
      Numeral.decimal start
  | .incomplete start => "incomplete utf-8 byte sequence from index " ++ Numeral.decimal start

/-- A decoder between two bytes: the characters so far, the last first, and the open sequence: where it
starts, how many of its bytes are read, what they say, how many are missing, and what bounds the next. -/
structure State where
  chars : List Char
  start : Nat
  length : Nat
  value : Nat
  missing : Nat
  low : Nat
  high : Nat

def State.initial : State := ⟨[], 0, 0, 0, 0, 0, 0⟩

/-- The first byte of a sequence. The bounds on the second leave out what has a shorter form, surrogates
and what lies beyond the last code point. -/
def State.lead (s : State) (b : Nat) : Except Fault State :=
  if b < 0x80 then .ok { s with chars := Char.ofNat b :: s.chars, start := s.start + 1 }
  else if 0xc2 ≤ b ∧ b ≤ 0xdf then .ok ⟨s.chars, s.start, 1, b - 0xc0, 1, 0x80, 0xbf⟩
  else if 0xe0 ≤ b ∧ b ≤ 0xef then
    .ok ⟨s.chars, s.start, 1, b - 0xe0, 2, if b = 0xe0 then 0xa0 else 0x80,
      if b = 0xed then 0x9f else 0xbf⟩
  else if 0xf0 ≤ b ∧ b ≤ 0xf4 then
    .ok ⟨s.chars, s.start, 1, b - 0xf0, 3, if b = 0xf0 then 0x90 else 0x80,
      if b = 0xf4 then 0x8f else 0xbf⟩
  else .error (.invalid s.start 1)

def State.feed (s : State) (b : Nat) : Except Fault State :=
  if s.missing = 0 then s.lead b
  else if s.low ≤ b ∧ b ≤ s.high then
    let value := 64 * s.value + (b - 0x80)
    if s.missing = 1 then
      .ok { s with chars := Char.ofNat value :: s.chars, start := s.start + s.length + 1, missing := 0 }
    else
      .ok { s with length := s.length + 1, value, missing := s.missing - 1, low := 0x80, high := 0xbf }
  else .error (.invalid s.start s.length)

def decode (bytes : Array Byte) : Except Fault String :=
  match bytes.foldlM (fun s b => s.feed b.toNat) State.initial with
  | .error e => .error e
  | .ok s => if s.missing = 0 then .ok (String.ofList s.chars.reverse) else .error (.incomplete s.start)

end Hart.Text.Utf8
