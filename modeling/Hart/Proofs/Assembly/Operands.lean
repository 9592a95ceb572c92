import Hart.Proofs.Assembly.Grammar
import Hart.Proofs.Assembly.Readers

namespace Hart.Assembly

/-- A place for an operand: a register, or a multiple of `step` from `low` on and below `high`, which takes
`bits` bits. -/
inductive Operand
  | register
  | number (bits : Nat) (low high step : Int)

namespace Operand

def signed (bits : Nat) : Operand := .number bits (-2 ^ (bits - 1)) (2 ^ (bits - 1)) 1

def unsigned (bits : Nat) : Operand := .number bits 0 (2 ^ bits) 1

def offset (bits : Nat) : Operand := .number bits (-2 ^ (bits - 1)) (2 ^ (bits - 1)) 2

inductive Reads : Operand → String → Int → Prop
  | register : Register.Named t r → Reads .register t r.toNat
  | number : Literal.Writes t.toList v → low ≤ v → v < high → step ∣ v →
      Reads (.number bits low high step) t v

/-- What is wrong with the token in this place. Numbers that take more than 64 bits are out of range
whatever the place. -/
inductive Refuses : Operand → String → LineError → Prop
  | invalidRegister : (∀ r, ¬ Register.Named t r) → Refuses .register t (.invalidRegister t)
  | invalidInteger : (∀ v, ¬ Literal.Writes t.toList v) →
      Refuses (.number bits low high step) t (.invalidInteger t)
  | huge : Literal.Writes t.toList v → 2 ^ 63 ≤ v.natAbs →
      Refuses (.number bits low high step) t (.outOfRange t 64)
  | outOfRange : Literal.Writes t.toList v → v.natAbs < 2 ^ 63 → ¬ (low ≤ v ∧ v < high) →
      Refuses (.number bits low high step) t (.outOfRange t bits)
  | misaligned : Literal.Writes t.toList v → low ≤ v → v < high → ¬ step ∣ v →
      Refuses (.number bits low high step) t (.misaligned t)

inductive ReadsAll : List Operand → Tokens → List Int → Prop
  | nil : ReadsAll [] [] []
  | cons : Reads o t v → ReadsAll os ts vs → ReadsAll (o :: os) (t :: ts) (v :: vs)

inductive Flaw : List Operand → Tokens → LineError → Prop
  | here : Refuses o t e → Flaw (o :: os) (t :: ts) e
  | later : Reads o t v → Flaw os ts e → Flaw (o :: os) (t :: ts) e

theorem Reads.range {t : String} {bits : Nat} {v low high step : Int}
    (h : (Operand.number bits low high step).Reads t v) : low ≤ v ∧ v < high := by
  cases h with
  | number _ hl hh _ => exact ⟨hl, hh⟩

theorem reads_or_refuses (o : Operand) (t : String) :
    (∃ v, o.Reads t v) ∨ ∃ e, o.Refuses t e := by
  cases o with
  | register =>
    by_cases h : ∃ r, Register.Named t r
    · obtain ⟨r, hr⟩ := h
      exact .inl ⟨_, .register hr⟩
    · exact .inr ⟨_, .invalidRegister (not_exists.1 h)⟩
  | number bits low high step =>
    by_cases h : ∃ v, Literal.Writes t.toList v
    · obtain ⟨v, hv⟩ := h
      by_cases hrange : low ≤ v ∧ v < high
      · by_cases hstep : step ∣ v
        · exact .inl ⟨v, .number hv hrange.1 hrange.2 hstep⟩
        · exact .inr ⟨_, .misaligned hv hrange.1 hrange.2 hstep⟩
      · by_cases hsmall : v.natAbs < 2 ^ 63
        · exact .inr ⟨_, .outOfRange hv hsmall hrange⟩
        · exact .inr ⟨_, .huge hv (Nat.not_lt.1 hsmall)⟩
    · exact .inr ⟨_, .invalidInteger (not_exists.1 h)⟩

theorem readsAll_or_flaw {os : List Operand} {ts : Tokens} (h : ts.length = os.length) :
    (∃ vs, ReadsAll os ts vs) ∨ ∃ e, Flaw os ts e := by
  induction os generalizing ts with
  | nil =>
    cases List.eq_nil_of_length_eq_zero h
    exact .inl ⟨[], .nil⟩
  | cons o os ih =>
    cases ts with
    | nil => cases h
    | cons t ts =>
      rcases o.reads_or_refuses t with ⟨v, hv⟩ | ⟨e, he⟩
      · rcases ih (Nat.succ.inj h) with ⟨vs, hvs⟩ | ⟨e, he⟩
        · exact .inl ⟨_, .cons hv hvs⟩
        · exact .inr ⟨e, .later hv he⟩
      · exact .inr ⟨e, .here he⟩

structure ReadBy (o : Operand) (t : String) (x : Except LineError α) (f : Int → α) : Prop where
  ok : ∀ v, o.Reads t v → x = .ok (f v)
  error : ∀ e, o.Refuses t e → x = .error e

structure ReadsAs (os : List Operand) (ts : Tokens) (x : Except LineError α)
    (P : List Int → α → Prop) : Prop where
  ok : ∀ vs, ReadsAll os ts vs → ∃ a, x = .ok a ∧ P vs a
  error : ∀ e, Flaw os ts e → x = .error e

section

variable {os : List Operand} {ts : Tokens} {t : String} {o : Operand} {α β : Type}
  {P : List Int → β → Prop}

theorem ReadsAll.length_eq {vs : List Int} (h : ReadsAll os ts vs) : ts.length = os.length := by
  induction h with
  | nil => rfl
  | cons _ _ ih => exact congrArg Nat.succ ih

theorem ReadsAs.imp {x : Except LineError β} {Q : List Int → β → Prop} (h : ReadsAs os ts x P)
    (hq : ∀ vs b, P vs b → Q vs b) : ReadsAs os ts x Q where
  ok vs hvs :=
    let ⟨b, hb, hp⟩ := h.ok vs hvs
    ⟨b, hb, hq vs b hp⟩
  error := h.error

theorem ReadsAs.pure {b : β} (h : P [] b) : ReadsAs [] [] (.ok b) P where
  ok
    | _, .nil => ⟨b, rfl, h⟩
  error := nofun

theorem ReadsAs.bind {x : Except LineError α} {k : α → Except LineError β} {f : Int → α}
    (hx : o.ReadBy t x f) (hk : ∀ v, o.Reads t v → ReadsAs os ts (k (f v)) fun vs => P (v :: vs)) :
    ReadsAs (o :: os) (t :: ts) (x >>= k) P where
  ok
    | _, .cons hv hvs => by
      rw [hx.ok _ hv]
      exact (hk _ hv).ok _ hvs
  error
    | _, .here he => by
      rw [hx.error _ he]
      rfl
    | _, .later hv he => by
      rw [hx.ok _ hv]
      exact (hk _ hv).error _ he

end

end Operand

namespace Tokens

variable {ts : Tokens} {i n bits : Nat} {t : String} {v low high : Int}

theorem expectCount_bind {α : Type} (h : ts.length = n) (x : Except LineError α) :
    (do
      ts.expectCount n
      x) = x := by
  rw [expectCount, if_pos h]
  rfl

theorem expectCount_bind_of_ne {α : Type} (h : ts.length ≠ n) (x : Except LineError α) :
    (do
      ts.expectCount n
      x) = .error (.wrongOperandCount n ts.length) := by
  rw [expectCount, if_neg h]
  rfl

theorem register_readBy (h : ts[i]? = some t) :
    Operand.register.ReadBy t (ts.register i) (BitVec.ofInt 5) where
  ok
    | _, .register hr => by
      rw [BitVec.ofInt_natCast, BitVec.ofNat_toNat, BitVec.setWidth_eq]
      exact register_eq_ok_iff.2 ⟨t, h, Register.lookup?_of_named hr⟩
  error
    | _, .invalidRegister hn => by
      have hl : Register.lookup? t = none :=
        Option.eq_none_iff_forall_ne_some.2 fun r hr => hn r (Register.lookup?_eq_some_iff.1 hr)
      simp only [register, token_eq_ok h, bind, Except.bind, hl]

theorem integer_of_not_writes (h : ts[i]? = some t) (hn : ∀ v, ¬ Literal.Writes t.toList v) :
    ts.integer i = .error (.invalidInteger t) := by
  have hv : Literal.value? t.toList = none :=
    Option.eq_none_iff_forall_ne_some.2 fun v hv => hn v (Literal.value?_eq_some_iff.1 hv)
  simp only [integer, token_eq_ok h, bind, Except.bind, hv]

theorem integer_of_writes (h : ts[i]? = some t) (hv : Literal.Writes t.toList v) :
    ts.integer i = if v.natAbs < 2 ^ 63 then .ok (t, v) else .error (.outOfRange t 64) := by
  simp only [integer, token_eq_ok h, bind, Except.bind, Literal.value?_eq_some_iff.2 hv]
  rfl

theorem number_readBy {fits : Int → Bool} (h : ts[i]? = some t)
    (hfits : ∀ v, fits v = true ↔ low ≤ v ∧ v < high) (hlow : -2 ^ 63 < low) (hhigh : high ≤ 2 ^ 63) :
    (Operand.number bits low high 1).ReadBy t (do
      let (t, v) ← ts.integer i
      if fits v then .ok (BitVec.ofInt 32 v) else .error (.outOfRange t bits)) (BitVec.ofInt 32) where
  ok
    | v, .number hv hl hh _ => by
      have hsmall : v.natAbs < 2 ^ 63 := by omega
      rw [integer_of_writes h hv, if_pos hsmall]
      exact if_pos ((hfits v).2 ⟨hl, hh⟩)
  error
    | _, .invalidInteger hn => by
      rw [integer_of_not_writes h hn]
      rfl
    | _, .huge hv hbig => by
      rw [integer_of_writes h hv, if_neg (Nat.not_lt.2 hbig)]
      rfl
    | _, .outOfRange hv hsmall hr => by
      rw [integer_of_writes h hv, if_pos hsmall]
      exact if_neg (mt (hfits _).1 hr)
    | _, .misaligned _ _ _ hstep => absurd (one_dvd _) hstep

theorem pow_le {n : Nat} (h : n ≤ 62) : (2 : Int) ^ n ≤ 2 ^ 62 := pow_le_pow_right₀ (by decide) h

theorem signed_readBy (h : ts[i]? = some t) (hbits : bits ≤ 62) :
    (Operand.signed bits).ReadBy t (ts.signed i bits) (BitVec.ofInt 32) := by
  have hp := pow_le (Nat.le_trans (Nat.sub_le bits 1) hbits)
  exact number_readBy h (fun v => fitsSigned_iff) (by omega) (by omega)

theorem unsigned_readBy (h : ts[i]? = some t) (hbits : bits ≤ 62) :
    (Operand.unsigned bits).ReadBy t (ts.unsigned i bits) (BitVec.ofInt 32) :=
  number_readBy h (fun v => fitsUnsigned_iff) (by decide) ((pow_le hbits).trans (by decide))

theorem getLsbD_zero_ofInt (v : Int) : (BitVec.ofInt 32 v).getLsbD 0 = false ↔ 2 ∣ v := by
  rw [← toInt_emod_two, BitVec.toInt_ofInt, Int.bmod_def]
  split <;> omega

theorem offset_of_signed_error {e : LineError} (h : ts.signed i bits = .error e) :
    ts.offset i bits = .error e := by
  rw [offset, h]
  rfl

theorem offset_readBy (h : ts[i]? = some t) (hbits : bits ≤ 62) :
    (Operand.offset bits).ReadBy t (ts.offset i bits) (BitVec.ofInt 32) where
  ok
    | v, .number hv hl hh heven => by
      have hs := (signed_readBy h hbits).ok v (.number hv hl hh (one_dvd v))
      exact offset_eq_ok hs ((getLsbD_zero_ofInt v).2 heven)
  error
    | _, .invalidInteger hn =>
      offset_of_signed_error ((signed_readBy h hbits).error _ (.invalidInteger hn))
    | _, .huge hv hbig =>
      offset_of_signed_error ((signed_readBy h hbits).error _ (.huge hv hbig))
    | _, .outOfRange hv hsmall hr =>
      offset_of_signed_error ((signed_readBy h hbits).error _ (.outOfRange hv hsmall hr))
    | _, .misaligned hv hl hh hodd => by
      have hs := (signed_readBy h hbits).ok _ (.number hv hl hh (one_dvd _))
      have hlow := mt (getLsbD_zero_ofInt _).1 hodd
      rw [offset, hs]
      change (if _ then _ else _) = _
      rw [if_pos (eq_true_of_ne_false hlow), token_eq_ok h]
      rfl

end Tokens

namespace Operand

variable {ts : Tokens} {o : Operand} {α : Type} {P : List Int → α → Prop}

theorem readsAs_three (r : Tokens → Except LineError Word) (make : Register → Register → Word → α)
    (h : ts.length = 3) (hr : ∀ a b c, o.ReadBy c (r [a, b, c]) (BitVec.ofInt 32))
    (hP : ∀ t x y v, o.Reads t v → P [BitVec.toNat x, BitVec.toNat y, v] (make x y (.ofInt 32 v))) :
    ReadsAs [.register, .register, o] ts (do
      ts.expectCount 3
      return make (← ts.register 0) (← ts.register 1) (← r ts)) P := by
  rw [Tokens.expectCount_bind h]
  obtain ⟨a, b, c, rfl⟩ := List.length_eq_three.1 h
  refine .bind (Tokens.register_readBy rfl) fun _ hx => .bind (Tokens.register_readBy rfl) fun _ hy =>
    .bind (hr a b c) fun v hv => .pure ?_
  cases hx
  cases hy
  simpa using hP c _ _ v hv

theorem readsAs_two (r : Tokens → Except LineError Word) (make : Register → Word → α)
    (h : ts.length = 2) (hr : ∀ a b, o.ReadBy b (r [a, b]) (BitVec.ofInt 32))
    (hP : ∀ t x v, o.Reads t v → P [BitVec.toNat x, v] (make x (.ofInt 32 v))) :
    ReadsAs [.register, o] ts (do
      ts.expectCount 2
      return make (← ts.register 0) (← r ts)) P := by
  rw [Tokens.expectCount_bind h]
  obtain ⟨a, b, rfl⟩ := List.length_eq_two.1 h
  refine .bind (Tokens.register_readBy rfl) fun _ hx => .bind (hr a b) fun v hv => .pure ?_
  cases hx
  simpa using hP b _ v hv

end Operand

end Hart.Assembly
