import Hart.Assembly.Tokens
import Hart.Proofs.Assembly.Literal
import Hart.Proofs.Text.Fields
import Hart.Proofs.Word

namespace Hart

open Assembly Text

theorem Register.lookup?_text (r : Register) : Register.lookup? r.text = some r := by
  revert r
  decide +kernel

namespace Text

theorem isSeparator_of_isDigit {c : Char} (h : c.isDigit = true) : isSeparator c = false := by
  have hc : 48 ≤ c.toNat ∧ c.toNat ≤ 57 := by
    simp only [Char.isDigit, Bool.and_eq_true, decide_eq_true_eq] at h
    exact h
  have hcomma : c ≠ ',' := by
    rintro rfl
    exact absurd h (by decide)
  simp only [isSeparator, isBlank, blankRanges, List.any_cons, List.any_nil]
  simp [hcomma]
  omega

theorem isWord_decimal (n : Nat) : IsWord (Numeral.decimal n).toList := by
  rw [Numeral.decimal, String.toList_ofList]
  exact ⟨Nat.toDigits_ne_nil, fun c hc => isSeparator_of_isDigit (Literal.isDigit_toDigits n c hc)⟩

theorem IsWord.cons {c : Char} {w : List Char} (hc : isSeparator c = false) (hw : IsWord w) :
    IsWord (c :: w) :=
  ⟨List.cons_ne_nil c w, List.forall_mem_cons.2 ⟨hc, hw.2⟩⟩

theorem isWord_signed (v : Int) : IsWord (Numeral.signed v).toList := by
  cases v with
  | ofNat n => exact isWord_decimal n
  | negSucc n =>
    rw [Numeral.signed, String.toList_append]
    exact (isWord_decimal (n + 1)).cons (c := '-') (by decide)

theorem isWord_register (r : Register) : IsWord r.text.toList := by
  rw [Register.text, String.toList_append]
  exact (isWord_decimal r.toNat).cons (c := 'x') (by decide)

end Text

namespace Assembly.Tokens

variable {ts : Tokens} {i bits : Nat} {t : String} {v : Int}

theorem token_eq_ok (h : ts[i]? = some t) : ts.token i = .ok t := by
  rw [token, h]

theorem register_eq_ok {r : Register} (h : ts[i]? = some r.text) : ts.register i = .ok r := by
  simp only [register, token_eq_ok h, bind, Except.bind, Register.lookup?_text]

theorem register_zero (r : Register) (ts : Tokens) : Tokens.register (r.text :: ts) 0 = .ok r :=
  register_eq_ok rfl

theorem register_one (t : String) (r : Register) (ts : Tokens) :
    Tokens.register (t :: r.text :: ts) 1 = .ok r :=
  register_eq_ok rfl

theorem integer_eq_ok (h : ts[i]? = some t) (hv : Literal.value? t.toList = some v)
    (hb : v.natAbs < 2 ^ 63) : ts.integer i = .ok (t, v) := by
  simp only [integer, token_eq_ok h, bind, Except.bind, hv]
  exact if_pos hb

theorem signed_eq_ok (h : ts[i]? = some t) (hv : Literal.value? t.toList = some v)
    (hbits : bits ≤ 32) (hf : fitsSigned v bits = true) :
    ts.signed i bits = .ok (BitVec.ofInt 32 v) := by
  have hp : (2 : Int) ^ (bits - 1) ≤ 2 ^ 31 := pow_le_pow_right₀ (by decide) (by omega)
  have hr := fitsSigned_iff.1 hf
  rw [signed, integer_eq_ok h hv (by omega)]
  exact if_pos hf

theorem unsigned_eq_ok (h : ts[i]? = some t) (hv : Literal.value? t.toList = some v)
    (hbits : bits ≤ 32) (hf : fitsUnsigned v bits = true) :
    ts.unsigned i bits = .ok (BitVec.ofInt 32 v) := by
  have hp : (2 : Int) ^ bits ≤ 2 ^ 32 := pow_le_pow_right₀ (by decide) hbits
  have hr := fitsUnsigned_iff.1 hf
  rw [unsigned, integer_eq_ok h hv (by omega)]
  exact if_pos hf

theorem offset_eq_ok {a : Word} (h : ts.signed i bits = .ok a) (ha : a.getLsbD 0 = false) :
    ts.offset i bits = .ok a := by
  rw [offset, h]
  change (if a.getLsbD 0 = true then _ else _) = _
  rw [ha]
  rfl

theorem signed_signed {a : Word} (h : ts[i]? = some (Numeral.signed a.toInt)) (hbits : bits ≤ 32)
    (hf : -2 ^ (bits - 1) ≤ a.toInt ∧ a.toInt < 2 ^ (bits - 1)) : ts.signed i bits = .ok a := by
  rw [signed_eq_ok h (Literal.value?_signed _) hbits (fitsSigned_iff.2 hf), BitVec.ofInt_toInt]

theorem unsigned_decimal {a : Word} (h : ts[i]? = some (Numeral.decimal a.toNat)) :
    ts.unsigned i 32 = .ok a := by
  have ha := a.isLt
  rw [unsigned_eq_ok h (Literal.value?_decimal _) (by decide) (fitsUnsigned_iff.2 (by omega)),
    BitVec.ofInt_natCast, BitVec.ofNat_toNat, BitVec.setWidth_eq]

end Assembly.Tokens

end Hart
