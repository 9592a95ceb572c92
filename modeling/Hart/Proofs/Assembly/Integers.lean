import Hart.Proofs.Assembly.Operands
import Mathlib

/-! Integers of any length, read in 64 bits. A token is refused, or gives the number that it writes. The readers
in steps hold every number on the way against those bits: only the digits of a literal can exceed them, and
they do exactly if the number itself does. -/

namespace Hart.Assembly

def hold? (v : Int) : Option Int :=
  if -0x8000000000000000 ≤ v ∧ v < 0x8000000000000000 then some v else none

/-- Why a reader in steps gives nothing: a number that is not held, where none is expected, or a flaw of the
token. -/
inductive Fault
  | overflow
  | error (cause : LineError)

def held (v : Int) : Except Fault Int :=
  match hold? v with
  | some v => .ok v
  | none => .error .overflow

theorem held_of_fits {v : Int} (h : -2 ^ 63 ≤ v ∧ v < 2 ^ 63) : held v = .ok v := by
  rw [held, hold?, if_pos (by omega)]

theorem held_bind {α : Type} {v : Int} (h : -2 ^ 63 ≤ v ∧ v < 2 ^ 63) (f : Int → Except Fault α) :
    (held v >>= f) = f v := by
  rw [held_of_fits h]
  rfl

namespace Literal

def sign : List Char → Bool × List Char
  | '-' :: s => (true, s)
  | '+' :: s => (false, s)
  | s => (false, s)

def radix : List Char → Nat × List Char
  | '0' :: 'x' :: s => (16, s)
  | '0' :: 'X' :: s => (16, s)
  | s => (10, s)

def push? (base : Nat) (n : Int) (d : Nat) : Option Int := do
  let m ← hold? (n * base)
  hold? (m + d)

def parse? (base : Nat) (s : List Char) : Option Int :=
  s.foldlM (fun n c => (digit? base c).bind (push? base n)) 0

variable {base d n : Nat} {s : List Char} {c : Char} {v : Int}

theorem magnitude?_eq (s : List Char) : magnitude? s = digits? (radix s).1 (radix s).2 := by
  fun_cases radix s with
  | case1 => rfl
  | case2 => rfl
  | case3 => simp only [magnitude?]

theorem value?_eq (s : List Char) : value? s =
    (magnitude? (sign s).2).map fun n : Nat => if (sign s).1 then -(n : Int) else n := by
  fun_cases sign s with
  | case1 s =>
    simp only [value?]
    cases magnitude? s <;> rfl
  | case2 s =>
    simp only [value?]
    cases magnitude? s <;> rfl
  | case3 =>
    simp only [value?]
    cases magnitude? s <;> rfl

theorem radix_le (s : List Char) : (radix s).1 ≤ 16 := by
  fun_cases radix s with
  | case1 => exact Nat.le_refl 16
  | case2 => exact Nat.le_refl 16
  | case3 => exact Nat.le_add_left 10 6

theorem push?_eq (base n d : Nat) : push? base n d =
    if base * n + d < 2 ^ 63 then some ((base * n + d : Nat) : Int) else none := by
  -- The product is not larger than the sum that follows it, so that only the number itself can be too
  -- large.
  have hproduct : (n : Int) * base = (base * n : Nat) := by
    push_cast
    ring
  rw [push?, hproduct]
  by_cases h : base * n + d < 2 ^ 63
  · rw [hold?, if_pos (by omega), if_pos h, Option.bind_eq_bind, Option.bind_some, hold?,
      if_pos (by omega)]
    rfl
  · rw [if_neg h, hold?]
    split
    · rw [Option.bind_eq_bind, Option.bind_some, hold?, if_neg (by omega)]
    · rfl

theorem parse?_snoc (base : Nat) (s : List Char) (c : Char) : parse? base (s ++ [c]) =
    (parse? base s).bind fun n => (digit? base c).bind (push? base n) := by
  rw [parse?, List.foldlM_append, ← parse?]
  simp

theorem parse?_nil (base : Nat) : parse? base [] = some ((0 : Nat) : Int) := rfl

theorem parse?_eq (hbase : base ≤ 16) (h : Digits base s n) :
    parse? base s = if n < 2 ^ 63 then some (n : Int) else none := by
  induction h with
  | @one d c hd hc =>
    rw [← List.nil_append [c], parse?_snoc, parse?_nil, Option.bind_some,
      (digit?_eq_some_iff hbase).2 ⟨hd, hc⟩, Option.bind_some, push?_eq, Nat.mul_zero, Nat.zero_add]
  | @more s n d c hs hd hc ih =>
    rw [parse?_snoc, ih, (digit?_eq_some_iff hbase).2 ⟨hd, hc⟩]
    by_cases hn : n < 2 ^ 63
    · rw [if_pos hn, Option.bind_some, Option.bind_some, push?_eq]
    · have hle : n ≤ base * n := Nat.le_mul_of_pos_left n (Nat.zero_lt_of_lt hd)
      rw [if_neg hn, if_neg (by omega), Option.bind_none]

theorem exists_digits (h : value? s = some v) : ∃ n,
    Digits (radix (sign s).2).1 (radix (sign s).2).2 n ∧ v = if (sign s).1 then -(n : Int) else n := by
  rw [value?_eq, Option.map_eq_some_iff] at h
  obtain ⟨n, hn, rfl⟩ := h
  rw [magnitude?_eq] at hn
  exact ⟨n, digits_of_digits? (radix_le _) hn, rfl⟩

end Literal

namespace Tokens

/-- The token at `i` and the number that it writes: the pattern is matched first, then the digits are put
together, and the sign is applied last. -/
def integerSteps (ts : Tokens) (i : Nat) : Except Fault (String × Int) := do
  let t ← (ts.token i).mapError .error
  let signed := Literal.sign t.toList
  let digits := Literal.radix signed.2
  match Literal.value? t.toList with
  | none => .error (.error (.invalidInteger t))
  | some _ =>
    match Literal.parse? digits.1 digits.2 with
    | none => .error (.error (.outOfRange t 64))
    | some n => return (t, ← if signed.1 then held (-n) else .ok n)

def signedSteps (ts : Tokens) (i bits : Nat) : Except Fault Word := do
  let (t, v) ← ts.integerSteps i
  let top ← held (2 ^ (bits - 1))
  let low ← held (-top)
  let high ← held (top - 1)
  if low ≤ v ∧ v ≤ high then .ok (BitVec.ofInt 32 v) else .error (.error (.outOfRange t bits))

def unsignedSteps (ts : Tokens) (i bits : Nat) : Except Fault Word := do
  let (t, v) ← ts.integerSteps i
  let stop ← held (2 ^ bits)
  if 0 ≤ v ∧ v < stop then .ok (BitVec.ofInt 32 v) else .error (.error (.outOfRange t bits))

def offsetSteps (ts : Tokens) (i bits : Nat) : Except Fault Word := do
  let v ← ts.signedSteps i bits
  if v.toInt.tmod 2 = 0 then .ok v
  else .error (.error (.misaligned (← (ts.token i).mapError .error)))

variable {ts : Tokens} {i bits : Nat} {t : String} {v : Int}

theorem integerSteps_of_writes (h : ts[i]? = some t) (hv : Literal.Writes t.toList v) :
    ts.integerSteps i = if v.natAbs < 2 ^ 63 then .ok (t, v) else .error (.error (.outOfRange t 64)) := by
  have hvalue := Literal.value?_eq_some_iff.2 hv
  obtain ⟨n, hn, rfl⟩ := Literal.exists_digits hvalue
  have hp := Literal.parse?_eq (Literal.radix_le _) hn
  have hmagnitude : (if (Literal.sign t.toList).1 then -(n : Int) else n).natAbs = n := by
    split <;> omega
  simp only [integerSteps, token_eq_ok h, bind, Except.bind, Except.mapError, hvalue, hmagnitude]
  by_cases hsmall : n < 2 ^ 63
  · have hopposite : held (-(n : Int)) = .ok (-n) := held_of_fits (by omega)
    rw [hp, if_pos hsmall, if_pos hsmall]
    cases (Literal.sign t.toList).1 with
    | true => simp only [if_true, hopposite, pure, Except.pure]
    | false => rfl
  · rw [hp, if_neg hsmall, if_neg hsmall]

theorem integerSteps_eq (ts : Tokens) (i : Nat) :
    ts.integerSteps i = (ts.integer i).mapError .error := by
  cases h : ts[i]? with
  | none => simp [integerSteps, integer, token, h, bind, Except.bind, Except.mapError]
  | some t =>
    cases hv : Literal.value? t.toList with
    | none =>
      simp only [integerSteps, integer, token_eq_ok h, hv, bind, Except.bind, Except.mapError]
    | some v =>
      have hw := Literal.value?_eq_some_iff.1 hv
      rw [integerSteps_of_writes h hw, integer_of_writes h hw]
      split <;> rfl

theorem signedSteps_eq (hbits : bits ≤ 62) (ts : Tokens) (i : Nat) :
    ts.signedSteps i bits = (ts.signed i bits).mapError .error := by
  have hp := pow_le (Nat.le_trans (Nat.sub_le bits 1) hbits)
  have hpos : 0 < (2 : Int) ^ (bits - 1) := by positivity
  have hbind (v : Int) (h : -2 ^ (bits - 1) ≤ v ∧ v ≤ 2 ^ (bits - 1)) (f : Int → Except Fault Word) :
      (held v >>= f) = f v := held_bind (by omega) f
  have hiff (v : Int) : fitsSigned v bits = true ↔ -2 ^ (bits - 1) ≤ v ∧ v ≤ 2 ^ (bits - 1) - 1 := by
    rw [fitsSigned_iff]
    omega
  simp only [signedSteps, signed, integerSteps_eq, hbind (2 ^ (bits - 1)) (by omega),
    hbind (-2 ^ (bits - 1)) (by omega), hbind (2 ^ (bits - 1) - 1) (by omega)]
  cases ts.integer i with
  | error e => rfl
  | ok r =>
    simp only [bind, Except.bind, Except.mapError]
    by_cases hfits : fitsSigned r.2 bits = true
    · rw [if_pos hfits, if_pos ((hiff _).1 hfits)]
    · rw [if_neg hfits, if_neg (mt (hiff _).2 hfits)]

theorem unsignedSteps_eq (hbits : bits ≤ 62) (ts : Tokens) (i : Nat) :
    ts.unsignedSteps i bits = (ts.unsigned i bits).mapError .error := by
  have hp := pow_le hbits
  have hpos : 0 < (2 : Int) ^ bits := by positivity
  have hbind (f : Int → Except Fault Word) : (held (2 ^ bits) >>= f) = f (2 ^ bits) :=
    held_bind (by omega) f
  simp only [unsignedSteps, unsigned, integerSteps_eq, hbind]
  cases ts.integer i with
  | error e => rfl
  | ok r =>
    simp only [bind, Except.bind, Except.mapError]
    by_cases hfits : fitsUnsigned r.2 bits = true
    · rw [if_pos hfits, if_pos (fitsUnsigned_iff.1 hfits)]
    · rw [if_neg hfits, if_neg (mt fitsUnsigned_iff.2 hfits)]

theorem offsetSteps_eq (hbits : bits ≤ 62) (ts : Tokens) (i : Nat) :
    ts.offsetSteps i bits = (ts.offset i bits).mapError .error := by
  rw [offsetSteps, offset, signedSteps_eq hbits]
  cases ts.signed i bits with
  | error e => rfl
  | ok v =>
    have heven : v.toInt.tmod 2 = 0 ↔ v.getLsbD 0 = false := by
      rw [← toInt_emod_two, ← Int.dvd_iff_tmod_eq_zero, ← Int.dvd_iff_emod_eq_zero]
    simp only [bind, Except.bind, Except.mapError]
    cases hlow : v.getLsbD 0 with
    | true =>
      rw [if_neg (by rw [heven, hlow]; decide), if_pos rfl]
      cases ts.token i <;> rfl
    | false => rw [if_pos (heven.2 hlow), if_neg Bool.false_ne_true]

end Tokens

namespace Operand.ReadBy

variable {bits : Nat} {low high step v : Int} {t : String} {x : Except LineError Word}

theorem of_huge (h : (Operand.number bits low high step).ReadBy t x (BitVec.ofInt 32))
    (hv : Literal.Writes t.toList v) (hbig : 2 ^ 63 - 1 < v.natAbs) : x = .error (.outOfRange t 64) :=
  h.error _ (.huge hv (by omega))

theorem of_writes (h : (Operand.number bits low high step).ReadBy t x (BitVec.ofInt 32))
    (hv : Literal.Writes t.toList v) (hsmall : v.natAbs ≤ 2 ^ 63 - 1) :
    x = if low ≤ v ∧ v < high then if step ∣ v then .ok (.ofInt 32 v) else .error (.misaligned t)
      else .error (.outOfRange t bits) := by
  by_cases hrange : low ≤ v ∧ v < high
  · rw [if_pos hrange]
    by_cases hstep : step ∣ v
    · rw [if_pos hstep]
      exact h.ok v (.number hv hrange.1 hrange.2 hstep)
    · rw [if_neg hstep]
      exact h.error _ (.misaligned hv hrange.1 hrange.2 hstep)
  · rw [if_neg hrange]
    exact h.error _ (.outOfRange hv (by omega) hrange)

theorem invalid_iff (h : (Operand.number bits low high step).ReadBy t x (BitVec.ofInt 32)) :
    x = .error (.invalidInteger t) ↔ ∀ v, ¬ Literal.Writes t.toList v := by
  constructor
  · rintro rfl v hv
    rcases lt_or_ge (2 ^ 63 - 1) v.natAbs with hbig | hsmall
    · cases h.of_huge hv hbig
    · have hx := h.of_writes hv hsmall
      split_ifs at hx <;> cases hx
  · exact fun hn => h.error _ (.invalidInteger hn)

end Operand.ReadBy

namespace Tokens

variable {ts : Tokens} {i bits : Nat} {t : String} {v : Int}

theorem toInt_ofInt_of_fits (h1 : 1 ≤ bits) (hbits : bits ≤ 32)
    (hv : -2 ^ (bits - 1) ≤ v ∧ v < 2 ^ (bits - 1)) : (BitVec.ofInt 32 v).toInt = v := by
  have hp : (2 : Int) ^ (bits - 1) ≤ 2 ^ 31 := pow_le_pow_right₀ (by decide) (by omega)
  exact BitVec.toInt_ofInt_eq_self (by decide) (by omega) (by omega)

theorem toNat_ofInt_of_fits (hbits : bits ≤ 32) (hv : 0 ≤ v ∧ v < 2 ^ bits) :
    ((BitVec.ofInt 32 v).toNat : Int) = v := by
  have hp : (2 : Int) ^ bits ≤ 2 ^ 32 := pow_le_pow_right₀ (by decide) hbits
  rw [BitVec.toNat_ofInt]
  omega

/-- An integer of any length is refused, or read as the number that it writes. A token that writes none is no
integer; a number that 64 bits do not hold with its opposite is out of the range of those, and every other one
that does not fit is out of the range of the place; an offset is not odd. The word of a number has its value if
it fits in a word, and no step on the way exceeds 64 bits. -/
theorem integers_exact (h : ts[i]? = some t) (h1 : 1 ≤ bits) (hbits : bits ≤ 62) :
    ((ts.signed i bits = .error (.invalidInteger t) ↔ ∀ v, ¬ Literal.Writes t.toList v) ∧
      (ts.unsigned i bits = .error (.invalidInteger t) ↔ ∀ v, ¬ Literal.Writes t.toList v) ∧
      (ts.offset i bits = .error (.invalidInteger t) ↔ ∀ v, ¬ Literal.Writes t.toList v)) ∧
    (∀ v, Literal.Writes t.toList v →
      (∀ u, Literal.Writes t.toList u → u = v) ∧
      (2 ^ 63 - 1 < v.natAbs → ts.signed i bits = .error (.outOfRange t 64) ∧
        ts.unsigned i bits = .error (.outOfRange t 64) ∧ ts.offset i bits = .error (.outOfRange t 64)) ∧
      (v.natAbs ≤ 2 ^ 63 - 1 →
        (ts.signed i bits = if -2 ^ (bits - 1) ≤ v ∧ v < 2 ^ (bits - 1) then .ok (.ofInt 32 v)
          else .error (.outOfRange t bits)) ∧
        (ts.unsigned i bits = if 0 ≤ v ∧ v < 2 ^ bits then .ok (.ofInt 32 v)
          else .error (.outOfRange t bits)) ∧
        (ts.offset i bits = if -2 ^ (bits - 1) ≤ v ∧ v < 2 ^ (bits - 1) then
          if 2 ∣ v then .ok (.ofInt 32 v) else .error (.misaligned t)
          else .error (.outOfRange t bits))) ∧
      (bits ≤ 32 →
        (-2 ^ (bits - 1) ≤ v ∧ v < 2 ^ (bits - 1) → (BitVec.ofInt 32 v).toInt = v) ∧
        (0 ≤ v ∧ v < 2 ^ bits → ((BitVec.ofInt 32 v).toNat : Int) = v))) ∧
    ts.signedSteps i bits = (ts.signed i bits).mapError .error ∧
    ts.unsignedSteps i bits = (ts.unsigned i bits).mapError .error ∧
    ts.offsetSteps i bits = (ts.offset i bits).mapError .error := by
  have hs := signed_readBy h hbits
  have hu := unsigned_readBy h hbits
  have ho := offset_readBy h hbits
  refine ⟨⟨hs.invalid_iff, hu.invalid_iff, ho.invalid_iff⟩,
    fun v hv => ⟨fun u hu' => ?same, ?huge, ?small,
      fun hword => ⟨toInt_ofInt_of_fits h1 hword, toNat_ofInt_of_fits hword⟩⟩,
    signedSteps_eq hbits ts i, unsignedSteps_eq hbits ts i, offsetSteps_eq hbits ts i⟩
  case same =>
    rw [← Literal.value?_eq_some_iff] at hv hu'
    exact Option.some.inj (hu'.symm.trans hv)
  case huge =>
    exact fun hbig => ⟨hs.of_huge hv hbig, hu.of_huge hv hbig, ho.of_huge hv hbig⟩
  case small =>
    intro hsmall
    refine ⟨?_, ?_, ho.of_writes hv hsmall⟩
    · rw [hs.of_writes hv hsmall, if_pos (one_dvd v)]
    · rw [hu.of_writes hv hsmall, if_pos (one_dvd v)]

theorem integers_exact_padded :
    let padded := "-00000000000000000000000000000000000000007"
    let least := "-9223372036854775808"
    let ts : Tokens := [padded, least]
    (ts[0]? = some padded ∧ ts[1]? = some least ∧ 1 ≤ 13 ∧ 13 ≤ 62) ∧
      ts.signed 0 13 = .ok (BitVec.ofInt 32 (-7)) ∧ (BitVec.ofInt 32 (-7)).toInt = -7 ∧
      ts.unsigned 0 13 = .error (.outOfRange padded 13) ∧ ts.offset 0 13 = .error (.misaligned padded) ∧
      ts.offset 1 13 = .error (.outOfRange least 64) := by
  intro padded least ts
  have hpadded : Literal.Writes padded.toList (-7) := Literal.value?_eq_some_iff.1 (by decide +kernel)
  have hleast : Literal.Writes least.toList (-9223372036854775808) :=
    Literal.value?_eq_some_iff.1 (by decide +kernel)
  have hbits : 1 ≤ 13 ∧ 13 ≤ 62 := by decide
  have hfirst : ts[0]? = some padded := rfl
  have hsecond : ts[1]? = some least := rfl
  obtain ⟨_, hvalue, _⟩ := integers_exact hfirst hbits.1 hbits.2
  obtain ⟨_, hfull, _⟩ := integers_exact hsecond hbits.1 hbits.2
  obtain ⟨_, _, hsmall, hword⟩ := hvalue _ hpadded
  obtain ⟨_, hhuge, _⟩ := hfull _ hleast
  obtain ⟨hsigned, hunsigned, hoffset⟩ := hsmall (by decide)
  exact ⟨⟨hfirst, hsecond, hbits⟩, hsigned, (hword (by decide)).1 (by decide), hunsigned, hoffset,
    (hhuge (by decide)).2.2⟩

end Tokens

end Hart.Assembly
