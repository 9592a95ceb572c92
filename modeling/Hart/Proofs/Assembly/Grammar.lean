import Hart.Proofs.Assembly.Tokens

namespace Hart

open Assembly

inductive Register.Named : String → Register → Prop
  | number (r : Register) : Named ("x" ++ Numeral.decimal r.toNat) r
  | zero : Named "zero" 0
  | returnAddress : Named "ra" 1
  | stackPointer : Named "sp" 2
  | globalPointer : Named "gp" 3
  | threadPointer : Named "tp" 4
  | framePointer : Named "fp" 8
  | temporary (i : Fin 7) :
      Named ("t" ++ Numeral.decimal i) (BitVec.ofNat 5 (if i < 3 then 5 + i else 25 + i))
  | saved (i : Fin 12) :
      Named ("s" ++ Numeral.decimal i) (BitVec.ofNat 5 (if i < 2 then 8 + i else 16 + i))
  | argument (i : Fin 8) : Named ("a" ++ Numeral.decimal i) (BitVec.ofNat 5 (10 + i))

namespace Register

variable {t : String} {r : Register}

theorem named_abiName (r : Register) : Named r.abiName r := by
  have h : ∀ r : Register, (r.abiName = "zero" ∧ r = 0) ∨ (r.abiName = "ra" ∧ r = 1) ∨
      (r.abiName = "sp" ∧ r = 2) ∨ (r.abiName = "gp" ∧ r = 3) ∨ (r.abiName = "tp" ∧ r = 4) ∨
      (∃ i : Fin 7, r.abiName = "t" ++ Numeral.decimal i ∧
        r = BitVec.ofNat 5 (if i < 3 then 5 + i else 25 + i)) ∨
      (∃ i : Fin 12, r.abiName = "s" ++ Numeral.decimal i ∧
        r = BitVec.ofNat 5 (if i < 2 then 8 + i else 16 + i)) ∨
      ∃ i : Fin 8, r.abiName = "a" ++ Numeral.decimal i ∧ r = BitVec.ofNat 5 (10 + i) := by
    decide +kernel
  rcases h r with ⟨ht, rfl⟩ | ⟨ht, rfl⟩ | ⟨ht, rfl⟩ | ⟨ht, rfl⟩ | ⟨ht, rfl⟩ | ⟨i, ht, rfl⟩ |
    ⟨i, ht, rfl⟩ | ⟨i, ht, rfl⟩
  all_goals rw [ht]
  · exact .zero
  · exact .returnAddress
  · exact .stackPointer
  · exact .globalPointer
  · exact .threadPointer
  · exact .temporary i
  · exact .saved i
  · exact .argument i

theorem lookup?_of_named (h : Named t r) : lookup? t = some r := by
  cases h with
  | number r => exact lookup?_text r
  | zero => decide +kernel
  | returnAddress => decide +kernel
  | stackPointer => decide +kernel
  | globalPointer => decide +kernel
  | threadPointer => decide +kernel
  | framePointer => decide +kernel
  | temporary i => decide +revert +kernel
  | saved i => decide +revert +kernel
  | argument i => decide +revert +kernel

theorem lookup?_eq_some_iff : lookup? t = some r ↔ Named t r := by
  refine ⟨fun h => ?_, lookup?_of_named⟩
  rw [lookup?] at h
  split at h
  · next hfp =>
    cases h
    exact hfp ▸ .framePointer
  · have hr := List.find?_some h
    rw [Bool.or_eq_true, decide_eq_true_eq, decide_eq_true_eq] at hr
    rcases hr with rfl | rfl
    · exact .number r
    · exact named_abiName r

end Register

namespace Assembly.Literal

def IsDigit (c : Char) (d : Nat) : Prop := c = d.digitChar ∨ c = d.digitChar.toUpper

instance (c : Char) (d : Nat) : Decidable (IsDigit c d) := inferInstanceAs (Decidable (_ ∨ _))

inductive Digits (base : Nat) : List Char → Nat → Prop
  | one : d < base → IsDigit c d → Digits base [c] d
  | more : Digits base s n → d < base → IsDigit c d → Digits base (s ++ [c]) (base * n + d)

inductive Magnitude : List Char → Nat → Prop
  | decimal : Digits 10 s n → Magnitude s n
  | hexadecimal : x = 'x' ∨ x = 'X' → Digits 16 s n → Magnitude ('0' :: x :: s) n

inductive Writes : List Char → Int → Prop
  | bare : Magnitude s n → Writes s n
  | plus : Magnitude s n → Writes ('+' :: s) n
  | minus : Magnitude s n → Writes ('-' :: s) (-n)

variable {base d n : Nat} {c : Char} {s : List Char} {v : Int}

theorem digit?_eq_some_iff_of_le (h : base ≤ 16) :
    digit? base c = some d ↔ digit? 16 c = some d ∧ d < base := by
  simp only [digit?]
  grind

theorem isDigit_of_digit? (h : digit? 16 c = some d) : IsDigit c d := by
  have hdecimal : ∀ k ∈ List.range' 48 10, IsDigit (Char.ofNat k) (k - 48) := by decide
  have hsmall : ∀ k ∈ List.range' 97 6, IsDigit (Char.ofNat k) (k - 97 + 10) := by decide
  have hlarge : ∀ k ∈ List.range' 65 6, IsDigit (Char.ofNat k) (k - 65 + 10) := by decide
  simp only [List.mem_range'_1] at hdecimal hsmall hlarge
  rw [← Char.ofNat_toNat c]
  simp only [digit?, Char.isDigit, Char.le_def, UInt32.le_iff_toNat_le] at h
  simp at h
  obtain ⟨hlt, rfl⟩ := h
  split_ifs at hlt ⊢ with h0 ha hA
  · exact hdecimal _ ⟨h0.1, by omega⟩
  · exact hsmall _ ⟨ha.1, by omega⟩
  · exact hlarge _ ⟨hA.1, by omega⟩
  · omega

theorem IsDigit.digit?_eq (hd : d < 16) (h : IsDigit c d) : digit? 16 c = some d := by
  have hdigit : ∀ d < 16, digit? 16 d.digitChar = some d ∧ digit? 16 d.digitChar.toUpper = some d := by
    decide
  rcases h with rfl | rfl
  · exact (hdigit d hd).1
  · exact (hdigit d hd).2

theorem digit?_eq_some_iff (h : base ≤ 16) : digit? base c = some d ↔ d < base ∧ IsDigit c d := by
  rw [digit?_eq_some_iff_of_le h]
  constructor
  · rintro ⟨hc, hd⟩
    exact ⟨hd, isDigit_of_digit? hc⟩
  · rintro ⟨hd, hc⟩
    exact ⟨hc.digit?_eq (hd.trans_le h), hd⟩

theorem digits?_snoc (hs : s ≠ []) (c : Char) : digits? base (s ++ [c]) =
    (digits? base s).bind fun n => (digit? base c).map (base * n + ·) := by
  rw [digits?, digits?, if_neg hs, if_neg (by simp), List.foldlM_append]
  simp

theorem Digits.ne_nil (h : Digits base s n) : s ≠ [] := by
  cases h with
  | one => exact List.cons_ne_nil _ _
  | more => exact List.append_ne_nil_of_right_ne_nil _ (List.cons_ne_nil _ _)

theorem Digits.digits?_eq (hbase : base ≤ 16) (h : Digits base s n) : digits? base s = some n := by
  induction h with
  | one hd hc => simp [digits?, (digit?_eq_some_iff hbase).2 ⟨hd, hc⟩]
  | more hs hd hc ih =>
    rw [digits?_snoc hs.ne_nil, ih, Option.bind_some, (digit?_eq_some_iff hbase).2 ⟨hd, hc⟩]
    rfl

theorem digits_of_digits? (hbase : base ≤ 16) (h : digits? base s = some n) : Digits base s n := by
  induction s using List.reverseRecOn generalizing n with
  | nil => cases h
  | append_singleton s c ih =>
    by_cases hs : s = []
    · subst hs
      simp [digits?] at h
      obtain ⟨hd, hc⟩ := (digit?_eq_some_iff hbase).1 h
      exact .one hd hc
    · rw [digits?_snoc hs, Option.bind_eq_some_iff] at h
      obtain ⟨m, hm, h⟩ := h
      obtain ⟨d, hd, rfl⟩ := Option.map_eq_some_iff.1 h
      obtain ⟨hd, hc⟩ := (digit?_eq_some_iff hbase).1 hd
      exact .more (ih hm) hd hc

theorem digits?_eq_some_iff (h : base ≤ 16) : digits? base s = some n ↔ Digits base s n :=
  ⟨digits_of_digits? h, Digits.digits?_eq h⟩

theorem Digits.isDigit (h : Digits base s n) : ∀ c ∈ s, ∃ d < base, IsDigit c d := by
  induction h with
  | one hd hc => simpa using ⟨_, hd, hc⟩
  | more _ hd hc ih =>
    intro c h
    rcases List.mem_append.1 h with h | h
    · exact ih c h
    · rw [List.mem_singleton.1 h]
      exact ⟨_, hd, hc⟩

theorem magnitude?_eq_some_iff : magnitude? s = some n ↔ Magnitude s n := by
  constructor
  · intro h
    unfold magnitude? at h
    split at h
    · exact .hexadecimal (.inl rfl) ((digits?_eq_some_iff (by decide)).1 h)
    · exact .hexadecimal (.inr rfl) ((digits?_eq_some_iff (by decide)).1 h)
    · exact .decimal ((digits?_eq_some_iff (by decide)).1 h)
  · intro h
    cases h with
    | decimal h =>
      have hx : ¬ ∃ d < 10, IsDigit 'x' d := by decide
      have hX : ¬ ∃ d < 10, IsDigit 'X' d := by decide
      unfold magnitude?
      split
      · exact absurd (h.isDigit 'x' (by simp)) hx
      · exact absurd (h.isDigit 'X' (by simp)) hX
      · exact h.digits?_eq (by decide)
    | hexadecimal hx h =>
      rcases hx with rfl | rfl
      · exact h.digits?_eq (by decide)
      · exact h.digits?_eq (by decide)

theorem Magnitude.isDigit (h : Magnitude (c :: s) n) : ∃ d < 10, IsDigit c d := by
  cases h with
  | decimal h => exact h.isDigit c List.mem_cons_self
  | hexadecimal => exact ⟨0, by decide, by decide⟩

theorem value?_eq_some_iff : value? s = some v ↔ Writes s v := by
  constructor
  · intro h
    unfold value? at h
    split at h
    all_goals
      obtain ⟨_, hi, rfl⟩ := Option.map_eq_some_iff.1 h
      obtain ⟨n, hn, ⟨⟩⟩ := Option.bind_eq_some_iff.1 hi
      rw [magnitude?_eq_some_iff] at hn
    · exact .minus hn
    · exact .plus hn
    · exact .bare hn
  · intro h
    cases h with
    | bare h =>
      have hminus : ¬ ∃ d < 10, IsDigit '-' d := by decide
      have hplus : ¬ ∃ d < 10, IsDigit '+' d := by decide
      unfold value?
      split
      · exact absurd h.isDigit hminus
      · exact absurd h.isDigit hplus
      · rw [magnitude?_eq_some_iff.2 h]
        rfl
    | plus h =>
      rw [value?, magnitude?_eq_some_iff.2 h]
      rfl
    | minus h =>
      rw [value?, magnitude?_eq_some_iff.2 h]
      rfl

end Assembly.Literal

end Hart
