import Hart.Assembly.Program
import Hart.Proofs.Instruction.RoundTrip
import Mathlib

namespace Hart

theorem find?_eq_some_iff_of_unique {p : α → Bool} {l : List α}
    (h : ∀ a ∈ l, ∀ b ∈ l, p a = true → p b = true → a = b) {a : α} :
    l.find? p = some a ↔ a ∈ l ∧ p a = true := by
  constructor
  · intro hf
    exact ⟨List.mem_of_find?_eq_some hf, List.find?_some hf⟩
  · rintro ⟨ha, hp⟩
    cases hf : l.find? p with
    | none => exact absurd hp (List.find?_eq_none.1 hf a ha)
    | some b =>
      rw [h b (List.mem_of_find?_eq_some hf) a ha (List.find?_some hf) hp]

namespace Pattern

theorem Overlaps.matches_or {p q : Pattern} (h : p.Overlaps q) (hp : p.Proper) (hq : q.Proper) :
    p.Matches (p.value ||| q.value) := by
  apply BitVec.eq_of_getLsbD_eq
  intro i _
  have h := congrArg (·.getLsbD i) h
  simp only [BitVec.getLsbD_and, BitVec.getLsbD_xor, BitVec.getLsbD_zero] at h
  simp only [BitVec.getLsbD_and, BitVec.getLsbD_or]
  cases hv : p.value.getLsbD i with
  | true => rw [hp.getLsbD hv]; rfl
  | false =>
    cases hw : q.value.getLsbD i with
    | false => rfl
    | true =>
      rw [hv, hw, hq.getLsbD hw] at h
      simpa using h

theorem Overlaps.symm {p q : Pattern} (h : p.Overlaps q) : q.Overlaps p := by
  rw [Overlaps, BitVec.xor_comm, BitVec.and_assoc, BitVec.and_comm q.mask, ← BitVec.and_assoc]
  exact h

theorem overlaps_iff {p q : Pattern} (hp : p.Proper) (hq : q.Proper) :
    p.Overlaps q ↔ ∃ w, p.Matches w ∧ q.Matches w := by
  constructor
  · intro h
    refine ⟨p.value ||| q.value, h.matches_or hp hq, ?_⟩
    rw [BitVec.or_comm]
    exact h.symm.matches_or hq hp
  · rintro ⟨w, hw, hw'⟩
    exact overlaps_of_matches hw hw'

end Pattern

namespace Descriptor

def Clashes (d e : Descriptor) : Prop :=
  d.mnemonic = e.mnemonic ∨ ∃ w, d.pattern.Matches w ∧ e.pattern.Matches w

def clash (d e : Descriptor) : TableError :=
  if d.mnemonic = e.mnemonic then .duplicateMnemonic d.mnemonic
  else .ambiguous d.mnemonic e.mnemonic

theorem overlaps_iff (d e : Descriptor) :
    d.pattern.Overlaps e.pattern ↔ ∃ w, d.pattern.Matches w ∧ e.pattern.Matches w :=
  Pattern.overlaps_iff d.proper_pattern e.proper_pattern

theorem Clashes.symm {d e : Descriptor} (h : d.Clashes e) : e.Clashes d := by
  rcases h with h | ⟨w, hd, he⟩
  · exact .inl h.symm
  · exact .inr ⟨w, he, hd⟩

theorem compatible_iff {d e : Descriptor} : d.Compatible e ↔ ¬ d.Clashes e := by
  rw [Compatible, overlaps_iff, Clashes, not_or]

theorem conflict?_eq_some_iff {d e : Descriptor} {err : TableError} :
    d.conflict? e = some err ↔ d.Clashes e ∧ err = d.clash e := by
  rw [conflict?, clash, Clashes, ← overlaps_iff]
  by_cases hm : d.mnemonic = e.mnemonic
  · simp [hm, eq_comm]
  · by_cases ho : d.pattern.Overlaps e.pattern <;> simp [hm, ho, eq_comm]

end Descriptor

/-- The entries `d` and `e` at `i` and `j` clash, and no pair before this one does: pairs come in the
order of their first place, and then of their second. -/
structure FirstClash (ds : List Descriptor) (i j : Nat) (d e : Descriptor) : Prop where
  lt : i < j
  first : ds[i]? = some d
  second : ds[j]? = some e
  clashes : d.Clashes e
  least : ∀ i' j' d' e', i' < j' → ds[i']? = some d' → ds[j']? = some e' → d'.Clashes e' →
    i < i' ∨ i = i' ∧ j ≤ j'

namespace FirstClash

variable {ds pre post : List Descriptor} {i j : Nat} {d e : Descriptor}

theorem head (he : d.Clashes e) (hpre : ∀ x ∈ pre, ¬ d.Clashes x) :
    FirstClash (d :: (pre ++ e :: post)) 0 (pre.length + 1) d e where
  lt := Nat.succ_pos _
  first := rfl
  second := by simp
  clashes := he
  least := by
    intro i' j' d' e' hlt hi hj hc
    cases i' with
    | succ i' => exact .inl (Nat.succ_pos i')
    | zero =>
      obtain ⟨k, rfl⟩ : ∃ k, j' = k + 1 := ⟨j' - 1, by omega⟩
      cases Option.some.inj hi
      refine .inr ⟨rfl, Nat.succ_le_succ (Nat.le_of_not_lt fun hk => ?_)⟩
      rw [List.getElem?_cons_succ, List.getElem?_append_left hk] at hj
      exact hpre e' (List.mem_of_getElem? hj) hc

theorem tail {x : Descriptor} (h : FirstClash ds i j d e) (hx : ∀ y ∈ ds, ¬ x.Clashes y) :
    FirstClash (x :: ds) (i + 1) (j + 1) d e where
  lt := Nat.succ_lt_succ h.lt
  first := h.first
  second := h.second
  clashes := h.clashes
  least := by
    intro i' j' d' e' hlt hi hj hc
    obtain ⟨k, rfl⟩ : ∃ k, j' = k + 1 := ⟨j' - 1, by omega⟩
    rw [List.getElem?_cons_succ] at hj
    cases i' with
    | zero =>
      cases Option.some.inj hi
      exact absurd hc (hx e' (List.mem_of_getElem? hj))
    | succ i' =>
      rw [List.getElem?_cons_succ] at hi
      have := h.least i' k d' e' (by omega) hi hj hc
      omega

theorem unique {i' j' : Nat} {d' e' : Descriptor} (h : FirstClash ds i j d e)
    (h' : FirstClash ds i' j' d' e') : d = d' ∧ e = e' := by
  have hle := h.least i' j' d' e' h'.lt h'.first h'.second h'.clashes
  have hge := h'.least i j d e h.lt h.first h.second h.clashes
  obtain ⟨rfl, rfl⟩ : i = i' ∧ j = j' := by omega
  exact ⟨Option.some.inj (h.first.symm.trans h'.first),
    Option.some.inj (h.second.symm.trans h'.second)⟩

end FirstClash

theorem exists_firstClash {ds : List Descriptor} {err : TableError}
    (h : firstConflict? ds = some err) :
    ∃ i j d e, FirstClash ds i j d e ∧ err = d.clash e := by
  induction ds with
  | nil => cases h
  | cons x ds ih =>
    rw [firstConflict?] at h
    cases hx : ds.findSome? x.conflict? with
    | some err' =>
      rw [hx, Option.some_or] at h
      cases h
      obtain ⟨pre, e, post, rfl, he, hpre⟩ := List.findSome?_eq_some_iff.1 hx
      obtain ⟨hc, rfl⟩ := Descriptor.conflict?_eq_some_iff.1 he
      refine ⟨0, pre.length + 1, x, e, .head hc fun y hy => ?_, rfl⟩
      exact Descriptor.compatible_iff.1 (Descriptor.conflict?_eq_none_iff.1 (hpre y hy))
    | none =>
      rw [hx, Option.none_or] at h
      obtain ⟨i, j, d, e, hf, rfl⟩ := ih h
      refine ⟨i + 1, j + 1, d, e, hf.tail fun y hy => ?_, rfl⟩
      exact Descriptor.compatible_iff.1
        (Descriptor.conflict?_eq_none_iff.1 (List.findSome?_eq_none_iff.1 hx y hy))

theorem firstConflict?_eq_some_iff {ds : List Descriptor} {err : TableError} :
    firstConflict? ds = some err ↔ ∃ i j d e, FirstClash ds i j d e ∧ err = d.clash e := by
  refine ⟨exists_firstClash, ?_⟩
  rintro ⟨i, j, d, e, h, rfl⟩
  cases hf : firstConflict? ds with
  | some err' =>
    obtain ⟨i', j', d', e', h', rfl⟩ := exists_firstClash hf
    obtain ⟨rfl, rfl⟩ := h.unique h'
    rfl
  | none =>
    have hp := List.pairwise_iff_getElem.1 (firstConflict?_eq_none_iff.1 hf)
    obtain ⟨hi, rfl⟩ := List.getElem?_eq_some_iff.1 h.first
    obtain ⟨hj, rfl⟩ := List.getElem?_eq_some_iff.1 h.second
    exact absurd h.clashes (Descriptor.compatible_iff.1 (hp i j hi hj h.lt))

inductive Unclaimed : Word → DecodeError → Prop
  | illegalZero : Unclaimed 0#32 .illegalZero
  | unknownOpcode : w ≠ 0#32 → (∀ o : Opcode, Opcode.field w ≠ o.code) → Unclaimed w (.unknownOpcode w)
  | noMatch : w ≠ 0#32 → Opcode.field w = Opcode.code o → Unclaimed w (.noMatch w)

namespace InstructionSet

open Assembly (encodeLine)

variable {ds : List Descriptor} {s t : InstructionSet} {w : Word} {d : Descriptor}

theorem ofList_eq_ok_iff : ofList ds = .ok s ↔ s.descriptors = ds := by
  constructor
  · exact descriptors_of_ofList
  · rintro rfl
    exact ofList_descriptors s

theorem ofList_eq_error_iff {err : TableError} :
    ofList ds = .error err ↔ ∃ i j d e, FirstClash ds i j d e ∧ err = d.clash e := by
  rw [← firstConflict?_eq_some_iff]
  unfold ofList
  split
  · next e h => rw [h, Except.error.injEq, Option.some.injEq]
  · next h => simp [h]

theorem exists_ofList_iff :
    (∃ s, ofList ds = .ok s) ↔ ds.Pairwise fun d e => ¬ d.Clashes e := by
  simp only [ofList_eq_ok_iff, ← Descriptor.compatible_iff]
  constructor
  · rintro ⟨s, rfl⟩
    exact s.compatible
  · intro h
    exact ⟨⟨ds, h⟩, rfl⟩

theorem pairwise_not_clashes_iff : (ds.Pairwise fun d e => ¬ d.Clashes e) ↔
    (ds.Pairwise fun d e => d.mnemonic ≠ e.mnemonic) ∧
      ∀ w, ds.Pairwise fun d e => ¬ (d.pattern.Matches w ∧ e.pattern.Matches w) := by
  simp only [Descriptor.Clashes, not_or, not_exists, List.pairwise_iff_getElem]
  constructor
  · intro h
    exact ⟨fun i j hi hj hij => (h i j hi hj hij).1, fun w i j hi hj hij => (h i j hi hj hij).2 w⟩
  · intro h i j hi hj hij
    exact ⟨h.1 i j hi hj hij, fun w => h.2 w i j hi hj hij⟩

theorem find?_eq_some_iff {m : String} :
    s.find? m = some d ↔ d ∈ s.descriptors ∧ d.mnemonic = m := by
  constructor
  · intro h
    exact ⟨List.mem_of_find?_eq_some h,
      eq_of_beq (List.find?_some (p := fun d : Descriptor => d.mnemonic == m) h)⟩
  · rintro ⟨hd, rfl⟩
    exact find?_mnemonic hd

theorem find?_matches_eq_some_iff :
    s.descriptors.find? (fun d => d.pattern.Matches w) = some d ↔
      d ∈ s.descriptors ∧ d.pattern.Matches w := by
  rw [find?_eq_some_iff_of_unique, decide_eq_true_eq]
  intro d hd e he hdw hew
  exact eq_of_matches hd he (of_decide_eq_true hdw) (of_decide_eq_true hew)

theorem filter_matches_eq_singleton_iff :
    s.descriptors.filter (fun d => d.pattern.Matches w) = [d] ↔
      d ∈ s.descriptors ∧ d.pattern.Matches w := by
  have hp := s.compatible.filter fun d => d.pattern.Matches w
  have hmem (x : Descriptor) : x ∈ s.descriptors.filter (fun d => d.pattern.Matches w) ↔
      x ∈ s.descriptors ∧ x.pattern.Matches w := by
    rw [List.mem_filter, decide_eq_true_eq]
  rw [← hmem]
  cases hl : s.descriptors.filter fun d => d.pattern.Matches w with
  | nil => simp
  | cons x l =>
    cases l with
    | nil => simp [eq_comm]
    | cons y l =>
      rw [hl] at hp hmem
      have hx := (hmem x).1 (by simp)
      have hy := (hmem y).1 (by simp)
      exact absurd (Pattern.overlaps_of_matches hx.2 hy.2) (List.rel_of_pairwise_cons hp (by simp)).2

theorem decode_eq_error_iff {err : DecodeError} : s.decode w = .error err ↔
    (∀ d ∈ s.descriptors, ¬ d.pattern.Matches w) ∧ Unclaimed w err := by
  constructor
  · intro h
    refine ⟨fun d hd hw => ?_, ?_⟩
    · rw [decode_of_matches hd hw] at h
      cases h
    · rw [decode] at h
      split at h
      · next h0 =>
        cases h
        rw [h0]
        exact .illegalZero
      · next h0 =>
        split at h
        · next ho =>
          cases h
          refine .unknownOpcode h0 fun o hf => ?_
          rw [hf, Opcode.ofCode?_code] at ho
          cases ho
        · next ho =>
          obtain ⟨o, ho⟩ := Option.ne_none_iff_exists'.1 ho
          split at h
          · cases h
            exact .noMatch h0 (Opcode.ofCode?_eq_some_iff.1 ho)
          · cases h
  · rintro ⟨hn, hu⟩
    have hf : s.descriptors.find? (fun d => d.pattern.Matches w) = none := by
      simpa [List.find?_eq_none] using hn
    cases hu with
    | illegalZero => rfl
    | unknownOpcode h0 ho =>
      have hc : Opcode.ofCode? (Opcode.field w) = none := by
        rw [Option.eq_none_iff_forall_ne_some]
        exact fun o hc => ho o (Opcode.ofCode?_eq_some_iff.1 hc)
      rw [decode, if_neg h0, if_pos hc]
    | noMatch h0 ho => rw [decode, if_neg h0, ho, Opcode.ofCode?_code, if_neg (by simp), hf]

theorem decode_congr (h : ∀ d, d ∈ s.descriptors ↔ d ∈ t.descriptors) (w : Word) :
    s.decode w = t.decode w := by
  have hf : s.descriptors.find? (fun d => d.pattern.Matches w) =
      t.descriptors.find? fun d => d.pattern.Matches w := by
    ext d
    rw [find?_matches_eq_some_iff, find?_matches_eq_some_iff, h]
  rw [decode, decode, hf]

theorem encodeLine_congr (h : ∀ d, d ∈ s.descriptors ↔ d ∈ t.descriptors) (line : List Char) :
    encodeLine s line = encodeLine t line := by
  have hf : s.find? = t.find? := by
    funext m
    ext d
    rw [find?_eq_some_iff, find?_eq_some_iff, h]
  rw [encodeLine, encodeLine, hf]

theorem exists_ofList_of_perm {es : List Descriptor} (hs : ofList ds = .ok s) (h : es.Perm ds) :
    ∃ t, ofList es = .ok t ∧ ∀ d, d ∈ t.descriptors ↔ d ∈ s.descriptors := by
  have hp : es.Pairwise fun d e => ¬ d.Clashes e :=
    (h.pairwise_iff fun h hc => h hc.symm).2 (exists_ofList_iff.1 ⟨s, hs⟩)
  obtain ⟨t, ht⟩ := exists_ofList_iff.2 hp
  refine ⟨t, ht, fun d => ?_⟩
  rw [descriptors_of_ofList ht, descriptors_of_ofList hs, h.mem_iff]

/-- Two entries overlap exactly when they share a word. A list is a table exactly when its mnemonics are
distinct and no word has two entries, and the error is that of the first pair that clashes. A table
decodes exactly the words that have an entry, as that entry, which is the only one; with its entries in
another order it decodes and assembles alike. -/
theorem ofList_unambiguous (ds : List Descriptor) :
    (∀ d e : Descriptor,
      d.pattern.Overlaps e.pattern ↔ ∃ w, d.pattern.Matches w ∧ e.pattern.Matches w) ∧
    ((∃ s, ofList ds = .ok s) ↔
      (ds.Pairwise fun d e => d.mnemonic ≠ e.mnemonic) ∧
        ∀ w, ds.Pairwise fun d e => ¬ (d.pattern.Matches w ∧ e.pattern.Matches w)) ∧
    (∀ err, ofList ds = .error err ↔ ∃ i j d e, FirstClash ds i j d e ∧ err = d.clash e) ∧
    ∀ s, ofList ds = .ok s →
      (∀ w, (∃ i, s.decode w = .ok i) ↔ ∃ d ∈ ds, d.pattern.Matches w) ∧
      (∀ w i, s.decode w = .ok i ↔
        ∃ d, ds.filter (fun d => d.pattern.Matches w) = [d] ∧ i = ⟨w, d, d.operands w⟩) ∧
      (∀ w err, s.decode w = .error err ↔ (∀ d ∈ ds, ¬ d.pattern.Matches w) ∧ Unclaimed w err) ∧
      ∀ es, es.Perm ds → ∃ t, ofList es = .ok t ∧ (∀ w, t.decode w = s.decode w) ∧
        ∀ line, encodeLine t line = encodeLine s line := by
  refine ⟨Descriptor.overlaps_iff, exists_ofList_iff.trans pairwise_not_clashes_iff,
    fun err => ofList_eq_error_iff, fun s hs => ?_⟩
  cases descriptors_of_ofList hs
  refine ⟨fun w => ?_, fun w i => ?_, fun w err => decode_eq_error_iff, fun es hp => ?_⟩
  · simp only [decode_eq_ok_iff]
    constructor
    · rintro ⟨_, d, hd, hw, _⟩
      exact ⟨d, hd, hw⟩
    · rintro ⟨d, hd, hw⟩
      exact ⟨_, d, hd, hw, rfl⟩
  · simp only [decode_eq_ok_iff, filter_matches_eq_singleton_iff, and_assoc]
  · obtain ⟨t, ht, hm⟩ := exists_ofList_of_perm hs hp
    exact ⟨t, ht, decode_congr hm, encodeLine_congr hm⟩

theorem ofList_unambiguous_system :
    let a : Descriptor := ⟨"A", .system, .funct3Funct12 8 0x7000, .systemCall⟩
    let b : Descriptor := ⟨"B", .system, .funct3Funct12 0 1, .systemBreak⟩
    let c : Descriptor := ⟨"C", .system, .funct3Funct7 0 0, .compute .add⟩
    ofList [b, c, a] = .error (.ambiguous "B" "C") ∧
    ∃ s t, ofList [a, b] = .ok s ∧ ofList [b, a] = .ok t ∧ s.decode 0x73 = .ok ⟨0x73, a, a.operands 0x73⟩ ∧
      t.decode 0x73 = s.decode 0x73 ∧ encodeLine t "B".toList = encodeLine s "B".toList ∧
      s.decode 0x200073 = .error (.noMatch 0x200073) := by
  intro a b c
  have hclash : b.Clashes c := .inr ((b.overlaps_iff c).1 (by decide))
  have hbad : FirstClash [b, c, a] 0 1 b c := @FirstClash.head [] [a] b c hclash (by simp)
  have hwords (w : Word) : [a, b].Pairwise fun d e => ¬ (d.pattern.Matches w ∧ e.pattern.Matches w) := by
    refine List.pairwise_pair.2 fun h => ?_
    exact absurd ((a.overlaps_iff b).2 ⟨w, h⟩) (by decide)
  obtain ⟨s, hs⟩ := (ofList_unambiguous [a, b]).2.1.2 ⟨by simp [a, b], hwords⟩
  obtain ⟨_, hfound, hfailed, hperm⟩ := (ofList_unambiguous [a, b]).2.2.2 s hs
  obtain ⟨t, ht, hdecode, hline⟩ := hperm [b, a] (List.Perm.swap a b [])
  refine ⟨((ofList_unambiguous [b, c, a]).2.2.1 _).2 ⟨0, 1, b, c, hbad, by rfl⟩, s, t, hs, ht, ?_,
    hdecode _, hline _, ?_⟩
  · refine (hfound _ _).2 ⟨a, ?_, rfl⟩
    rw [List.filter_cons_of_pos (by decide), List.filter_cons_of_neg (by decide), List.filter_nil]
  · refine (hfailed _ _).2 ⟨fun d hd => ?_, .noMatch (o := .system) (by decide) (by decide)⟩
    simp only [List.mem_cons, List.not_mem_nil, or_false] at hd
    rcases hd with rfl | rfl <;> decide

end InstructionSet

end Hart
