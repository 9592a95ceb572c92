import Hart.Instruction.Table
import Mathlib

namespace Hart

namespace BitRange

theorem set_and_set_allOnes (r : BitRange) (v m x : BitVec n) :
    r.set v x &&& r.set m (BitVec.allOnes n) = r.set (v &&& m) x := by
  apply BitVec.eq_of_getLsbD_eq
  intro i hi
  simp only [BitVec.getLsbD_and, getLsbD_set, BitVec.getLsbD_allOnes]
  split
  · simp [hi, show i - r.lo < n by omega]
  · rfl

theorem set_eq_or {r s : BitRange} (h : s.hi < r.lo) (x y : BitVec n) :
    r.set (s.set 0#n x) y = s.set 0#n x ||| r.set 0#n y := by
  apply BitVec.eq_of_getLsbD_eq
  intro i hi
  simp only [BitVec.getLsbD_or, getLsbD_set, BitVec.getLsbD_zero]
  by_cases hr : r.lo ≤ i ∧ i ≤ r.hi
  · rw [if_pos hr, if_neg (by omega), if_pos hr, Bool.false_or]
  · rw [if_neg hr, if_neg hr, Bool.or_false]

theorem and_set_allOnes_eq_set_iff (r : BitRange) (h : r.hi < n) (v x : BitVec n) :
    v &&& r.set 0#n (BitVec.allOnes n) = r.set 0#n x ↔
      v.extractLsb r.hi r.lo = x.setWidth (r.hi - r.lo + 1) := by
  have hr := r.lo_le_hi
  constructor
  · intro e
    apply BitVec.eq_of_getLsbD_eq
    intro i hi
    have e := congrArg (·.getLsbD (r.lo + i)) e
    simp only [BitVec.getLsbD_and, getLsbD_set] at e
    rw [if_pos (by omega), if_pos (by omega)] at e
    simp only [BitVec.getLsbD_allOnes, Nat.add_sub_cancel_left] at e
    simp only [BitVec.getLsbD_extractLsb, BitVec.getLsbD_setWidth]
    simpa [show i < n by omega, show r.lo + i < n by omega, show i ≤ r.hi - r.lo by omega,
      show i < r.hi - r.lo + 1 by omega] using e
  · intro e
    apply BitVec.eq_of_getLsbD_eq
    intro i hi
    simp only [BitVec.getLsbD_and, getLsbD_set]
    by_cases hi' : r.lo ≤ i ∧ i ≤ r.hi
    · have e := congrArg (·.getLsbD (i - r.lo)) e
      simp only [BitVec.getLsbD_extractLsb, BitVec.getLsbD_setWidth] at e
      rw [Nat.add_sub_cancel' hi'.1] at e
      rw [if_pos hi', if_pos hi']
      simpa [show i - r.lo < n by omega, hi, show i - r.lo ≤ r.hi - r.lo by omega,
        show i - r.lo < r.hi - r.lo + 1 by omega] using e
    · rw [if_neg hi', if_neg hi', BitVec.getLsbD_zero, Bool.and_false]

end BitRange

namespace Pattern

def Proper (p : Pattern) : Prop := p.value &&& p.mask = p.value

theorem Proper.getLsbD {p : Pattern} (h : p.Proper) {i : Nat} (hi : p.value.getLsbD i = true) :
    p.mask.getLsbD i = true := by
  rw [← h, BitVec.getLsbD_and, Bool.and_eq_true] at hi
  exact hi.2

theorem Matches.getLsbD {p : Pattern} {w : Word} (h : p.Matches w) (i : Nat) :
    p.value.getLsbD i = (w.getLsbD i && p.mask.getLsbD i) := by
  rw [← h, BitVec.getLsbD_and]

theorem overlaps_of_matches {p q : Pattern} {w : Word} (hp : p.Matches w) (hq : q.Matches w) :
    p.Overlaps q := by
  apply BitVec.eq_of_getLsbD_eq
  intro i _
  simp only [BitVec.getLsbD_and, BitVec.getLsbD_xor, hp.getLsbD, hq.getLsbD, BitVec.getLsbD_zero]
  cases w.getLsbD i <;> cases p.mask.getLsbD i <;> cases q.mask.getLsbD i <;> rfl

theorem Proper.matches_overwrite {p : Pattern} (h : p.Proper) (w : Word) :
    p.Matches ((w &&& ~~~p.mask) ||| p.value) := by
  apply BitVec.eq_of_getLsbD_eq
  intro i hi
  simp only [BitVec.getLsbD_and, BitVec.getLsbD_or, BitVec.getLsbD_not, hi, decide_true]
  cases hv : p.value.getLsbD i with
  | false => cases p.mask.getLsbD i <;> simp
  | true => rw [h.getLsbD hv]; simp

def ofRange (r : BitRange) (x : Word) : Pattern := ⟨r.set 0#32 (BitVec.allOnes 32), r.set 0#32 x⟩

def both (p q : Pattern) : Pattern := ⟨p.mask ||| q.mask, p.value ||| q.value⟩

theorem proper_ofRange (r : BitRange) (x : Word) : (ofRange r x).Proper := by
  rw [Proper, ofRange, BitRange.set_and_set_allOnes, BitVec.zero_and]

theorem mask_ofRange_and {r s : BitRange} (h : r.hi < s.lo) (x y : Word) :
    (ofRange r x).mask &&& (ofRange s y).mask = 0#32 := by
  apply BitVec.eq_of_getLsbD_eq
  intro i hi
  simp only [ofRange, BitVec.getLsbD_and, BitRange.getLsbD_set, BitVec.getLsbD_zero]
  by_cases hr : r.lo ≤ i ∧ i ≤ r.hi
  · rw [if_neg (show ¬ (s.lo ≤ i ∧ i ≤ s.hi) by omega), Bool.and_false]
  · rw [if_neg hr, Bool.false_and]

theorem matches_ofRange (r : BitRange) (h : r.hi < 32) (x w : Word) :
    (ofRange r x).Matches w ↔ w.extractLsb r.hi r.lo = x.setWidth (r.hi - r.lo + 1) :=
  BitRange.and_set_allOnes_eq_set_iff r h w x

theorem Proper.both {p q : Pattern} (hp : p.Proper) (hq : q.Proper) : (p.both q).Proper := by
  apply BitVec.eq_of_getLsbD_eq
  intro i _
  simp only [Pattern.both, BitVec.getLsbD_and, BitVec.getLsbD_or]
  cases hv : p.value.getLsbD i with
  | true => rw [hp.getLsbD hv]; rfl
  | false =>
    cases hw : q.value.getLsbD i with
    | true => rw [hq.getLsbD hw]; simp
    | false => rfl

theorem both_comm (p q : Pattern) : p.both q = q.both p := by
  rw [both, both, BitVec.or_comm p.mask, BitVec.or_comm p.value]

theorem Matches.of_both {p q : Pattern} {w : Word} (e : (p.both q).Matches w) (hp : p.Proper)
    (hq : q.Proper) (h : p.mask &&& q.mask = 0#32) : p.Matches w := by
  apply BitVec.eq_of_getLsbD_eq
  intro i _
  have hd : (p.mask.getLsbD i && q.mask.getLsbD i) = false := by
    rw [← BitVec.getLsbD_and, h, BitVec.getLsbD_zero]
  have e := e.getLsbD i
  simp only [both, BitVec.getLsbD_or, BitVec.getLsbD_and] at e ⊢
  cases hm : p.mask.getLsbD i with
  | true =>
    have hv : q.value.getLsbD i = false := by
      by_contra hv
      rw [hm, hq.getLsbD (eq_true_of_ne_false hv)] at hd
      exact Bool.noConfusion hd
    rw [hm, hv, Bool.or_false, Bool.true_or] at e
    exact e.symm
  | false =>
    cases hv : p.value.getLsbD i with
    | true => rw [hp.getLsbD hv] at hm; exact Bool.noConfusion hm
    | false => exact Bool.and_false _

theorem matches_both {p q : Pattern} (hp : p.Proper) (hq : q.Proper)
    (h : p.mask &&& q.mask = 0#32) (w : Word) :
    (p.both q).Matches w ↔ p.Matches w ∧ q.Matches w := by
  constructor
  · intro e
    refine ⟨e.of_both hp hq h, ?_⟩
    rw [both_comm] at e
    exact e.of_both hq hp (by rw [BitVec.and_comm, h])
  · rintro ⟨ep, eq⟩
    rw [Matches, both, ← ep, ← eq, BitVec.and_or_distrib_left]

end Pattern

namespace Locator

theorem pattern_funct3Funct7 (a b : Word) : (funct3Funct7 a b).pattern =
    (Pattern.ofRange funct3Range a).both (.ofRange funct7Range b) := by
  have h := @BitRange.set_eq_or 32 funct7Range funct3Range (by decide)
  simp only [pattern, Pattern.both, Pattern.ofRange, ← h]
  rfl

theorem pattern_funct3Funct12 (a b : Word) : (funct3Funct12 a b).pattern =
    (Pattern.ofRange funct3Range a).both (.ofRange funct12Range b) := by
  have h := @BitRange.set_eq_or 32 funct12Range funct3Range (by decide)
  simp only [pattern, Pattern.both, Pattern.ofRange, ← h]
  rfl

theorem proper_pattern (l : Locator) : l.pattern.Proper := by
  cases l with
  | none => rfl
  | funct3 a => exact Pattern.proper_ofRange _ _
  | funct3Funct7 a b =>
    rw [pattern_funct3Funct7]
    exact (Pattern.proper_ofRange _ _).both (Pattern.proper_ofRange _ _)
  | funct3Funct12 a b =>
    rw [pattern_funct3Funct12]
    exact (Pattern.proper_ofRange _ _).both (Pattern.proper_ofRange _ _)

def Selects : Locator → Word → Prop
  | .none, _ => True
  | .funct3 a, w => w.extractLsb 14 12 = a.setWidth 3
  | .funct3Funct7 a b, w => w.extractLsb 14 12 = a.setWidth 3 ∧ w.extractLsb 31 25 = b.setWidth 7
  | .funct3Funct12 a b, w => w.extractLsb 14 12 = a.setWidth 3 ∧ w.extractLsb 31 20 = b.setWidth 12

theorem matches_pattern (l : Locator) (w : Word) : l.pattern.Matches w ↔ l.Selects w := by
  cases l with
  | none => simp [pattern, Pattern.Matches, Selects]
  | funct3 a => exact Pattern.matches_ofRange funct3Range (by decide) a w
  | funct3Funct7 a b =>
    rw [pattern_funct3Funct7, Pattern.matches_both (Pattern.proper_ofRange _ _)
      (Pattern.proper_ofRange _ _) (Pattern.mask_ofRange_and (by decide) _ _),
      Pattern.matches_ofRange funct3Range (by decide),
      Pattern.matches_ofRange funct7Range (by decide)]
    rfl
  | funct3Funct12 a b =>
    rw [pattern_funct3Funct12, Pattern.matches_both (Pattern.proper_ofRange _ _)
      (Pattern.proper_ofRange _ _) (Pattern.mask_ofRange_and (by decide) _ _),
      Pattern.matches_ofRange funct3Range (by decide),
      Pattern.matches_ofRange funct12Range (by decide)]
    rfl

end Locator

namespace Opcode

def range : BitRange := { lo := 0, hi := 6 }

theorem pattern_eq (o : Opcode) :
    Pattern.ofRange range (o.code.setWidth 32) = ⟨0x7f, o.code.setWidth 32⟩ := by
  cases o <;> rfl

end Opcode

namespace Descriptor

theorem pattern_eq (d : Descriptor) : d.pattern =
    (Pattern.ofRange Opcode.range (d.opcode.code.setWidth 32)).both d.locator.pattern := by
  rw [Opcode.pattern_eq]
  rfl

theorem proper_pattern (d : Descriptor) : d.pattern.Proper := by
  rw [pattern_eq]
  exact (Pattern.proper_ofRange _ _).both d.locator.proper_pattern

theorem matches_pattern (d : Descriptor) (w : Word) :
    d.pattern.Matches w ↔ Opcode.field w = d.opcode.code ∧ d.locator.Selects w := by
  have h : (Pattern.ofRange Opcode.range (d.opcode.code.setWidth 32)).mask &&&
      d.locator.pattern.mask = 0#32 := by
    rw [Opcode.pattern_eq]
    cases d.locator <;> simp [Locator.pattern]
  rw [pattern_eq, Pattern.matches_both (Pattern.proper_ofRange _ _) d.locator.proper_pattern h,
    Pattern.matches_ofRange Opcode.range (by decide), Locator.matches_pattern]
  simp [Opcode.field, Opcode.range]

theorem matches_encode (d : Descriptor) (p : Operands d.format) :
    d.pattern.Matches (d.encode p) := d.proper_pattern.matches_overwrite p.encode

end Descriptor

namespace InstructionSet

variable {s : InstructionSet} {d e : Descriptor} {w : Word}

theorem eq_of_not_compatible (hd : d ∈ s.descriptors) (he : e ∈ s.descriptors)
    (h : ¬ d.Compatible e) (h' : ¬ e.Compatible d) : d = e := by
  let R (d e : Descriptor) : Prop := ¬ d.Compatible e → ¬ e.Compatible d → d = e
  have hR : s.descriptors.Pairwise R := s.compatible.imp fun h hn => absurd h hn
  have hR' : s.descriptors.Pairwise (flip R) := s.compatible.imp fun h _ hn => absurd h hn
  exact List.Pairwise.forall_of_forall_of_flip (fun _ _ _ _ => rfl) hR hR' hd he h h'

theorem eq_of_matches (hd : d ∈ s.descriptors) (he : e ∈ s.descriptors)
    (hdw : d.pattern.Matches w) (hew : e.pattern.Matches w) : d = e :=
  eq_of_not_compatible hd he (fun h => h.2 (Pattern.overlaps_of_matches hdw hew))
    (fun h => h.2 (Pattern.overlaps_of_matches hew hdw))

theorem find?_mnemonic (hd : d ∈ s.descriptors) : s.find? d.mnemonic = some d := by
  cases hf : s.find? d.mnemonic with
  | none => exact absurd (List.find?_eq_none.1 hf d hd) (by simp)
  | some e =>
    have he : e.mnemonic = d.mnemonic :=
      eq_of_beq (List.find?_some (p := fun e : Descriptor => e.mnemonic == d.mnemonic) hf)
    rw [eq_of_not_compatible (List.mem_of_find?_eq_some hf) hd (fun h => h.1 he)
      (fun h => h.1 he.symm)]

theorem ne_zero_of_matches (h : d.pattern.Matches w) : w ≠ 0#32 := by
  rintro rfl
  have h := ((d.matches_pattern 0#32).1 h).1
  cases hd : d.opcode <;> rw [hd] at h <;> exact absurd h (by decide)

theorem decode_of_matches (hd : d ∈ s.descriptors) (h : d.pattern.Matches w) :
    s.decode w = .ok ⟨w, d, d.operands w⟩ := by
  have ho : Opcode.ofCode? (Opcode.field w) = some d.opcode :=
    Opcode.ofCode?_eq_some_iff.2 ((d.matches_pattern w).1 h).1
  have hf : s.descriptors.find? (fun d => d.pattern.Matches w) = some d := by
    cases hf : s.descriptors.find? (fun d => d.pattern.Matches w) with
    | none =>
      have := List.find?_eq_none.1 hf d hd
      simp [h] at this
    | some e =>
      have he := List.find?_some hf
      rw [eq_of_matches (List.mem_of_find?_eq_some hf) hd (of_decide_eq_true he) h]
  rw [decode, if_neg (ne_zero_of_matches h), ho, if_neg (by simp), hf]

theorem decode_eq_ok_iff {i : Instruction} : s.decode w = .ok i ↔
    ∃ d ∈ s.descriptors, d.pattern.Matches w ∧ i = ⟨w, d, d.operands w⟩ := by
  constructor
  · intro h
    rw [decode] at h
    split at h
    · cases h
    · split at h
      · cases h
      · split at h
        · cases h
        · next d hd =>
          cases h
          have hm := List.find?_some hd
          exact ⟨d, List.mem_of_find?_eq_some hd, of_decide_eq_true hm, rfl⟩
  · rintro ⟨d, hd, h, rfl⟩
    exact decode_of_matches hd h

end InstructionSet

end Hart
