import Hart.Proofs.Assembly.Disassembly
import Hart.Proofs.Instruction.Dispatch

namespace Hart

open Assembly Text

theorem bind_eq_ok_iff {ε α β : Type} {x : Except ε α} {f : α → Except ε β} {b : β} :
    x >>= f = .ok b ↔ ∃ a, x = .ok a ∧ f a = .ok b := by
  cases x with
  | error e => exact ⟨nofun, nofun⟩
  | ok a =>
    constructor
    · exact fun h => ⟨a, rfl, h⟩
    · rintro ⟨_, ⟨⟩, h⟩
      exact h

namespace Assembly.Tokens

variable {ts : Tokens} {i n bits : Nat} {t : String} {v : Int} {a : Word}

theorem expectCount_eq_ok_iff {u : Unit} : ts.expectCount n = .ok u ↔ ts.length = n := by
  rw [expectCount]
  split <;> simp [*]

theorem token_eq_ok_iff : ts.token i = .ok t ↔ ts[i]? = some t := by
  rw [token]
  split <;> simp [*]

theorem register_eq_ok_iff {r : Register} :
    ts.register i = .ok r ↔ ∃ t, ts[i]? = some t ∧ Register.lookup? t = some r := by
  simp only [register, bind_eq_ok_iff, token_eq_ok_iff]
  constructor
  · rintro ⟨t, ht, h⟩
    split at h
    · next hr =>
      cases h
      exact ⟨t, ht, hr⟩
    · cases h
  · rintro ⟨t, ht, hr⟩
    refine ⟨t, ht, ?_⟩
    rw [hr]

theorem integer_eq_ok_iff : ts.integer i = .ok (t, v) ↔
    ts[i]? = some t ∧ Literal.value? t.toList = some v ∧ v.natAbs < 2 ^ 63 := by
  simp only [integer, bind_eq_ok_iff, token_eq_ok_iff]
  constructor
  · rintro ⟨t, ht, h⟩
    split at h
    · cases h
    · next hv =>
      split at h
      · next hb =>
        cases h
        exact ⟨ht, hv, hb⟩
      · cases h
  · rintro ⟨ht, hv, hb⟩
    refine ⟨t, ht, ?_⟩
    rw [hv]
    exact if_pos hb

theorem signed_eq_ok_iff (h0 : 0 < bits) (h : bits ≤ 32) : ts.signed i bits = .ok a ↔
    ∃ t, ts[i]? = some t ∧ Literal.value? t.toList = some a.toInt ∧
      -2 ^ (bits - 1) ≤ a.toInt ∧ a.toInt < 2 ^ (bits - 1) := by
  constructor
  · intro hs
    rw [signed, bind_eq_ok_iff] at hs
    obtain ⟨⟨t, v⟩, hi, hs⟩ := hs
    obtain ⟨ht, hv, _⟩ := integer_eq_ok_iff.1 hi
    dsimp only at hs
    split at hs
    · next hf =>
      cases hs
      have hr := fitsSigned_iff.1 hf
      have hp : (2 : Int) ^ (bits - 1) ≤ 2 ^ 31 := pow_le_pow_right₀ (by decide) (by omega)
      have hva : (BitVec.ofInt 32 v).toInt = v := by
        rw [BitVec.toInt_ofInt]
        exact Int.bmod_eq_of_le (by omega) (by omega)
      rw [hva]
      exact ⟨t, ht, hv, hr⟩
    · cases hs
  · rintro ⟨t, ht, hv, hr⟩
    rw [signed_eq_ok ht hv h (fitsSigned_iff.2 hr), BitVec.ofInt_toInt]

theorem unsigned_eq_ok_iff (h : bits ≤ 32) : ts.unsigned i bits = .ok a ↔
    ∃ t, ts[i]? = some t ∧ Literal.value? t.toList = some (a.toNat : Int) ∧ a.toNat < 2 ^ bits := by
  constructor
  · intro hs
    rw [unsigned, bind_eq_ok_iff] at hs
    obtain ⟨⟨t, v⟩, hi, hs⟩ := hs
    obtain ⟨ht, hv, _⟩ := integer_eq_ok_iff.1 hi
    dsimp only at hs
    split at hs
    · next hf =>
      cases hs
      obtain ⟨hnonneg, hlt⟩ := fitsUnsigned_iff.1 hf
      obtain ⟨n, rfl⟩ := Int.eq_ofNat_of_zero_le hnonneg
      have hn : n < 2 ^ bits := by exact_mod_cast hlt
      have hp : 2 ^ bits ≤ 2 ^ 32 := Nat.pow_le_pow_right (by decide) h
      have hva : (BitVec.ofInt 32 (n : Int)).toNat = n := by
        rw [BitVec.ofInt_natCast, BitVec.toNat_ofNat, Nat.mod_eq_of_lt (by omega)]
      rw [hva]
      exact ⟨t, ht, hv, hn⟩
    · cases hs
  · rintro ⟨t, ht, hv, hlt⟩
    have hf : fitsUnsigned (a.toNat : Int) bits = true :=
      fitsUnsigned_iff.2 ⟨Int.natCast_nonneg _, by exact_mod_cast hlt⟩
    rw [unsigned_eq_ok ht hv h hf, BitVec.ofInt_natCast, BitVec.ofNat_toNat, BitVec.setWidth_eq]

theorem offset_eq_ok_iff :
    ts.offset i bits = .ok a ↔ ts.signed i bits = .ok a ∧ a.toInt % 2 = 0 := by
  rw [toInt_emod_two, offset, bind_eq_ok_iff]
  constructor
  · rintro ⟨b, hb, h⟩
    split at h
    · rw [bind_eq_ok_iff] at h
      obtain ⟨_, _, h⟩ := h
      cases h
    · next hodd =>
      cases h
      exact ⟨hb, eq_false_of_ne_true hodd⟩
  · rintro ⟨ha, heven⟩
    refine ⟨a, ha, ?_⟩
    rw [heven]
    rfl

end Assembly.Tokens

/-- The tokens name the registers of the operands, in the order in which these are written, and write
their immediate; that of the upper format loses its low bits. -/
inductive Operands.Says : {f : Format} → Tokens → Operands f → Prop
  | immediate : Register.lookup? a = some rd → Register.lookup? b = some rs1 →
      Literal.value? c.toList = some imm.toInt → Says [a, b, c] (.immediate rd rs1 imm)
  | branch : Register.lookup? a = some rs1 → Register.lookup? b = some rs2 →
      Literal.value? c.toList = some imm.toInt → Says [a, b, c] (.branch rs1 rs2 imm)
  | jump : Register.lookup? a = some rd → Literal.value? b.toList = some imm.toInt →
      Says [a, b] (.jump rd imm)
  | store : Register.lookup? a = some rs2 → Register.lookup? b = some rs1 →
      Literal.value? c.toList = some imm.toInt → Says [a, b, c] (.store rs1 rs2 imm)
  | upper (v : Word) : Register.lookup? a = some rd → Literal.value? b.toList = some (v.toNat : Int) →
      Says [a, b] (.upper rd (v &&& 0xfffff000))

def Shape.Says : {f : Format} → Shape f → Tokens → Operands f → Prop
  | _, .plain, ts, p => p.Says ts
  | _, .shift, ts, p => p.Says ts
  | _, .bare, ts, .immediate rd rs1 _ => ts = [] ∧ rd = 0 ∧ rs1 = 0

def Descriptor.Says (d : Descriptor) (ts : Tokens) (p : Operands d.format) : Prop := d.shape.Says ts p

namespace Operands

variable {f : Format} {ts : Tokens} {α : Type}

theorem read_three_iff (r : Tokens → Except LineError Word) (make : Register → Register → Word → α)
    {q : α} :
    (do
      ts.expectCount 3
      return make (← ts.register 0) (← ts.register 1) (← r ts)) = .ok q ↔
    ∃ a b c x y v, ts = [a, b, c] ∧ Register.lookup? a = some x ∧ Register.lookup? b = some y ∧
      r [a, b, c] = .ok v ∧ q = make x y v := by
  simp only [bind_eq_ok_iff, Tokens.expectCount_eq_ok_iff, Tokens.register_eq_ok_iff]
  constructor
  · rintro ⟨_, hlen, x, ⟨a, ha, hx⟩, y, ⟨b, hb, hy⟩, v, hv, h⟩
    obtain ⟨a', b', c, rfl⟩ := List.length_eq_three.1 hlen
    cases ha
    cases hb
    cases h
    exact ⟨a, b, c, x, y, v, rfl, hx, hy, hv, rfl⟩
  · rintro ⟨a, b, c, x, y, v, rfl, hx, hy, hv, rfl⟩
    exact ⟨(), rfl, x, ⟨a, rfl, hx⟩, y, ⟨b, rfl, hy⟩, v, hv, rfl⟩

theorem read_two_iff (r : Tokens → Except LineError Word) (make : Register → Word → α) {q : α} :
    (do
      ts.expectCount 2
      return make (← ts.register 0) (← r ts)) = .ok q ↔
    ∃ a b x v, ts = [a, b] ∧ Register.lookup? a = some x ∧ r [a, b] = .ok v ∧ q = make x v := by
  simp only [bind_eq_ok_iff, Tokens.expectCount_eq_ok_iff, Tokens.register_eq_ok_iff]
  constructor
  · rintro ⟨_, hlen, x, ⟨a, ha, hx⟩, v, hv, h⟩
    obtain ⟨a', b, rfl⟩ := List.length_eq_two.1 hlen
    cases ha
    cases h
    exact ⟨a, b, x, v, rfl, hx, hv, rfl⟩
  · rintro ⟨a, b, x, v, rfl, hx, hv, rfl⟩
    exact ⟨(), rfl, x, ⟨a, rfl, hx⟩, v, hv, rfl⟩

theorem says_of_read {p : Operands f} (h : Operands.read f ts = .ok p) : p.Says ts ∧ p.InRange := by
  cases f with
  | immediate =>
    obtain ⟨a, b, c, rd, rs1, imm, rfl, ha, hb, hc, rfl⟩ :=
      (read_three_iff (·.signed 2 12) immediate).1 h
    obtain ⟨_, ⟨⟩, hv, hr⟩ := (Tokens.signed_eq_ok_iff (by decide) (by decide)).1 hc
    exact ⟨.immediate ha hb hv, hr⟩
  | branch =>
    obtain ⟨a, b, c, rs1, rs2, imm, rfl, ha, hb, hc, rfl⟩ :=
      (read_three_iff (·.offset 2 13) branch).1 h
    obtain ⟨hs, heven⟩ := Tokens.offset_eq_ok_iff.1 hc
    obtain ⟨_, ⟨⟩, hv, hr⟩ := (Tokens.signed_eq_ok_iff (by decide) (by decide)).1 hs
    exact ⟨.branch ha hb hv, heven, hr⟩
  | jump =>
    obtain ⟨a, b, rd, imm, rfl, ha, hb, rfl⟩ := (read_two_iff (·.offset 1 21) jump).1 h
    obtain ⟨hs, heven⟩ := Tokens.offset_eq_ok_iff.1 hb
    obtain ⟨_, ⟨⟩, hv, hr⟩ := (Tokens.signed_eq_ok_iff (by decide) (by decide)).1 hs
    exact ⟨.jump ha hv, heven, hr⟩
  | store =>
    obtain ⟨a, b, c, rs2, rs1, imm, rfl, ha, hb, hc, rfl⟩ :=
      (read_three_iff (·.signed 2 12) fun rs2 rs1 imm => store rs1 rs2 imm).1 h
    obtain ⟨_, ⟨⟩, hv, hr⟩ := (Tokens.signed_eq_ok_iff (by decide) (by decide)).1 hc
    exact ⟨.store ha hb hv, hr⟩
  | upper =>
    obtain ⟨a, b, rd, v, rfl, ha, hb, rfl⟩ :=
      (read_two_iff (·.unsigned 1 32) fun rd v => upper rd (v &&& 0xfffff000)).1 h
    obtain ⟨_, ⟨⟩, hv, _⟩ := (Tokens.unsigned_eq_ok_iff (by decide)).1 hb
    refine ⟨.upper v ha hv, and_upperMask_eq_self_iff.1 ?_⟩
    rw [BitVec.and_assoc, BitVec.and_self]

end Operands

theorem Shape.says_of_read {f : Format} {s : Shape f} {l : Locator} {ts : Tokens} {p : Operands f}
    (h : s.read l ts = .ok p) : s.Says ts p ∧ s.InRange l p ∧ s.reread l p = p := by
  cases s with
  | plain =>
    obtain ⟨hs, hr⟩ := Operands.says_of_read h
    exact ⟨hs, hr, rfl⟩
  | shift =>
    obtain ⟨a, b, c, rd, rs1, imm, rfl, ha, hb, hc, rfl⟩ :=
      (Operands.read_three_iff (·.unsigned 2 5) Operands.immediate).1 h
    obtain ⟨_, ⟨⟩, hv, hr⟩ := (Tokens.unsigned_eq_ok_iff (by decide)).1 hc
    rw [← toInt_of_lt hr] at hv
    exact ⟨.immediate ha hb hv, hr, rfl⟩
  | bare =>
    simp only [read, bind_eq_ok_iff, Tokens.expectCount_eq_ok_iff] at h
    obtain ⟨_, hlen, ⟨⟩⟩ := h
    exact ⟨⟨List.eq_nil_of_length_eq_zero hlen, rfl, rfl⟩, rfl, rfl⟩

namespace InstructionSet

variable {s : InstructionSet} {line : List Char} {w : Word}

theorem encodeLine_eq_ok_iff : encodeLine s line = .ok w ↔
    ∃ d, s.find? (((tokens line).map String.ofList).headD "") = some d ∧
      ∃ p, d.read ((tokens line).map String.ofList).tail = .ok p ∧ d.encode p = w := by
  simp only [encodeLine]
  cases s.find? (((tokens line).map String.ofList).headD "") with
  | none => simp
  | some d => simp [bind_eq_ok_iff, pure, Except.pure]

theorem exists_of_encodeLine (hs : ∀ d ∈ s.descriptors, d.mnemonic ≠ "")
    (h : encodeLine s line = .ok w) :
    ∃ d ∈ s.descriptors, ∃ ts p,
      (tokens line).map String.ofList = d.mnemonic :: ts ∧ d.read ts = .ok p ∧ d.encode p = w := by
  obtain ⟨d, hf, p, hp, hw⟩ := encodeLine_eq_ok_iff.1 h
  obtain ⟨hd, hm⟩ := find?_eq_some_iff.1 hf
  cases hl : (tokens line).map String.ofList with
  | nil =>
    rw [hl] at hm
    exact absurd hm (hs d hd)
  | cons t ts =>
    rw [hl] at hm hp
    exact ⟨d, hd, ts, p, congrArg (· :: ts) hm.symm, hp, hw⟩

theorem mnemonic_ne_base : ∀ d ∈ baseDescriptors, d.mnemonic ≠ "" := by
  decide

/-- No assembled word means something else than its line: it is decoded as the instruction that the
line names, with the operands that the line writes, and its text assembles to it again. -/
theorem decode_of_encodeLine (h : encodeLine base line = .ok w) :
    ∃ d ∈ baseDescriptors, ∃ ts p, (tokens line).map String.ofList = d.mnemonic :: ts ∧
      d.read ts = .ok p ∧ d.Says ts p ∧ base.decode w = .ok ⟨w, d, p⟩ ∧
      encodeLine base (Instruction.text ⟨w, d, p⟩).toList = .ok w := by
  obtain ⟨d, hd, ts, p, hline, hp, rfl⟩ := exists_of_encodeLine mnemonic_ne_base h
  obtain ⟨hs, hr, hre⟩ := Shape.says_of_read hp
  have hops : d.operands (d.encode p) = p := d.operands_encode (regular_base d hd) hr
  have hdec : base.decode (d.encode p) = .ok ⟨d.encode p, d, p⟩ := by
    have h := decode_of_matches (s := base) hd (d.matches_encode p)
    rwa [hops] at h
  refine ⟨d, hd, ts, p, hline, hp, hs, hdec, ?_⟩
  have hmask := Descriptor.encode_reread (d.matches_encode p)
  rw [hops, Descriptor.reread, hre] at hmask
  rw [encodeLine_text hdec (isWord_mnemonic_base d hd), ← hmask]

theorem decode_of_encodeLine_beq : encodeLine base "BEQ ra,x2 -0x4".toList = .ok 0xfe208ee3 ∧
    ∃ d ∈ baseDescriptors, ∃ ts p,
      (tokens "BEQ ra,x2 -0x4".toList).map String.ofList = d.mnemonic :: ts ∧ d.read ts = .ok p ∧
      d.Says ts p ∧ base.decode 0xfe208ee3 = .ok ⟨0xfe208ee3, d, p⟩ ∧
      encodeLine base (Instruction.text ⟨0xfe208ee3, d, p⟩).toList = .ok 0xfe208ee3 := by
  have h : encodeLine base "BEQ ra,x2 -0x4".toList = .ok 0xfe208ee3 := by decide +kernel
  exact ⟨h, decode_of_encodeLine h⟩

end InstructionSet

end Hart
