import Hart.Assembly.Tokens
import Hart.Text.Printing
import Mathlib

namespace Hart.Assembly.Literal

theorem digit?_of_isDigit {c : Char} (h : c.isDigit = true) :
    digit? 10 c = some (c.toNat - '0'.toNat) := by
  have hc : c.toNat ≤ 57 := by
    simp only [Char.isDigit, Bool.and_eq_true, decide_eq_true_eq] at h
    exact h.2
  have h10 : c.toNat - '0'.toNat < 10 := by
    change c.toNat - 48 < 10
    omega
  rw [digit?, if_pos h]
  exact if_pos h10

theorem foldlM_digits {s : List Char} (h : ∀ c ∈ s, c.isDigit = true) (n : Nat) :
    s.foldlM (fun n c => (digit? 10 c).map (10 * n + ·)) n = some (Nat.ofDigitChars 10 s n) := by
  induction s generalizing n with
  | nil => rfl
  | cons c s ih =>
    rw [List.foldlM_cons, digit?_of_isDigit (h c List.mem_cons_self), Option.map_some,
      Nat.ofDigitChars_cons]
    exact ih (fun c hc => h c (List.mem_cons_of_mem _ hc)) _

theorem digits?_of_isDigit {s : List Char} (h : ∀ c ∈ s, c.isDigit = true) (hs : s ≠ []) :
    digits? 10 s = some (Nat.ofDigitChars 10 s 0) := by
  rw [digits?, if_neg hs]
  exact foldlM_digits h 0

theorem magnitude?_of_isDigit {s : List Char} (h : ∀ c ∈ s, c.isDigit = true) (hs : s ≠ []) :
    magnitude? s = some (Nat.ofDigitChars 10 s 0) := by
  unfold magnitude?
  split
  -- A second character that begins hexadecimal digits is no decimal digit.
  · next s => exact absurd (h 'x' (by simp)) (by decide)
  · next s => exact absurd (h 'X' (by simp)) (by decide)
  · exact digits?_of_isDigit h hs

theorem value?_of_isDigit {s : List Char} (h : ∀ c ∈ s, c.isDigit = true) (hs : s ≠ []) :
    value? s = some (Nat.ofDigitChars 10 s 0 : Int) := by
  unfold value?
  split
  · next s => exact absurd (h '-' (by simp)) (by decide)
  · next s => exact absurd (h '+' (by simp)) (by decide)
  · rw [magnitude?_of_isDigit h hs]
    rfl

theorem value?_minus {s : List Char} {n : Nat} (h : magnitude? s = some n) :
    value? ('-' :: s) = some (-n : Int) := by
  rw [value?, h]
  rfl

theorem isDigit_toDigits (n : Nat) : ∀ c ∈ Nat.toDigits 10 n, c.isDigit = true :=
  fun _ hc => Nat.isDigit_of_mem_toDigits (by decide) (by decide) hc

@[simp] theorem value?_decimal (n : Nat) : value? (Numeral.decimal n).toList = some (n : Int) := by
  rw [Numeral.decimal, String.toList_ofList,
    value?_of_isDigit (isDigit_toDigits n) Nat.toDigits_ne_nil, Nat.ofDigitChars_ten_toDigits]

theorem magnitude?_decimal (n : Nat) : magnitude? (Numeral.decimal n).toList = some n := by
  rw [Numeral.decimal, String.toList_ofList,
    magnitude?_of_isDigit (isDigit_toDigits n) Nat.toDigits_ne_nil, Nat.ofDigitChars_ten_toDigits]

@[simp] theorem value?_signed (v : Int) : value? (Numeral.signed v).toList = some v := by
  cases v with
  | ofNat n => exact value?_decimal n
  | negSucc n =>
    rw [Numeral.signed, String.toList_append]
    exact value?_minus (magnitude?_decimal (n + 1))

end Hart.Assembly.Literal
