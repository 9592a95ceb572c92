import Hart.Proofs.Executable.Headers
import Hart.Proofs.Memory.Insertion
import Mathlib

namespace Hart.Executable

def Header.pages (h : Header) (n : Nat) : Nat := (h.top + n - 1) / n

/-- The address space holds the pages of the segments, those of the stack, and the guard page, which is
left out if the others fill it. -/
def Header.Fits (h : Header) (n k : Nat) : Prop :=
  (h.pages n + k) * n = 2 ^ 32 ∨ (h.pages n + k + 1) * n ≤ 2 ^ 32

def Plan.page (p : Plan) (n i : Nat) : Storage := p.storage (i * n) ((i + 1) * n)

/-- The pages of the segments, `k` pages of zeroed RAM and a guard page stand back to back from address
zero, and the stack begins at the end of that RAM. -/
structure Header.LaidOut (h : Header) (file : Array Byte) (n k : Nat) (image : Image) : Prop where
  wellFormed : image.memory.WellFormed
  pageSize : image.memory.pageSize = n
  storages : image.memory.storages = (List.range (h.pages n)).map ((h.plan file).page n) ++
    List.replicate k (.zeroedRam n) ++ if (h.pages n + k) * n = 2 ^ 32 then [] else [.guard]
  stackPointer : image.stackPointer.toNat = (h.pages n + k) * n % 2 ^ 32
  entry : image.entry = BitVec.ofNat 32 h.entry

inductive Header.Verdict (file : Array Byte) (n k : Nat) : Option Header → Except LoadError Image → Prop
  | loaded : h.Loadable file.size → h.Fits n k → h.LaidOut file n k image →
      Verdict file n k (some h) (.ok image)
  | exhausted : h.Loadable file.size → ¬ h.Fits n k →
      Verdict file n k (some h) (.error (.memory .addressSpaceExhausted))
  | refused : Header.Refused file.size h? e → Verdict file n k h? (.error e)

theorem mul_lt_iff_lt_ceil {n : Nat} (hn : 0 < n) (i top : Nat) :
    i * n < top ↔ i < (top + n - 1) / n := by
  rw [Nat.lt_iff_add_one_le, Nat.lt_iff_add_one_le, Nat.le_div_iff_mul_le hn, Nat.succ_mul]
  omega

namespace Plan

variable {p : Plan} {n k : Nat}

theorem length_storage (p : Plan) (start stop : Nat) :
    (p.storage start stop).length ≤ stop - start := by
  rw [storage]
  split
  · exact Nat.zero_le _
  · split <;> exact Nat.le_refl _

theorem length_page (p : Plan) (n i : Nat) : (p.page n i).length ≤ n := by
  have h := p.length_storage (i * n) (i * n + n)
  rwa [Nat.add_sub_cancel_left, ← Nat.succ_mul] at h

theorem pagesFrom_eq (p : Plan) (top i : Nat) (m : Memory) : p.pagesFrom top (i * m.pageSize) m =
    Memory.insertFrom (p.page m.pageSize) i ((top + m.pageSize - 1) / m.pageSize - i) m := by
  have hlt := mul_lt_iff_lt_ceil m.pageSize_pos i top
  generalize hc : (top + m.pageSize - 1) / m.pageSize - i = c
  induction c generalizing i m with
  | zero =>
    rw [pagesFrom, if_neg (by omega)]
    rfl
  | succ c ih =>
    have hs : p.storage (i * m.pageSize) (i * m.pageSize + m.pageSize) = p.page m.pageSize i := by
      rw [page, Nat.succ_mul]
    rw [pagesFrom, if_pos (by omega), Memory.insertFrom]
    simp only [hs]
    cases m.refusal? (p.page m.pageSize i) with
    | some e => rfl
    | none =>
      rw [← Nat.succ_mul]
      exact ih (i + 1) (m.push (p.page m.pageSize i)) (mul_lt_iff_lt_ceil m.pageSize_pos _ _) (by
        rw [Memory.pageSize_push]
        omega)

def body (p : Plan) (c n k : Nat) : List Storage :=
  (List.range c).map (p.page n) ++ List.replicate k (.zeroedRam n)

theorem length_body (p : Plan) (c n k : Nat) : (p.body c n k).length = c + k := by
  rw [body, List.length_append, List.length_map, List.length_range, List.length_replicate]

variable {c : Nat} (hn : 0 < n)

theorem pagesFrom_empty (hc : (p.top + n - 1) / n = c) :
    p.pagesFrom p.top 0 (.empty n hn) = Memory.insertFrom (p.page n) 0 c (.empty n hn) := by
  have h := p.pagesFrom_eq p.top 0 (.empty n hn)
  rwa [Nat.zero_mul, Nat.sub_zero, Memory.pageSize_empty, hc] at h

theorem pagesFrom_of_fits (hc : (p.top + n - 1) / n = c) (h : c * n ≤ Memory.addressSpace) :
    ∃ m, p.pagesFrom p.top 0 (.empty n hn) = ⟨m, none⟩ ∧
      (Memory.empty n hn).Extends ((List.range c).map (p.page n)) m ∧ m.pages.size = c := by
  obtain ⟨m, hm, he⟩ := (Memory.wellFormed_empty n hn).insertFrom_of_fits (i := 0) (p.length_page n)
    (by rwa [Memory.size_empty, Nat.zero_add])
  rw [← List.range_eq_range'] at he
  refine ⟨m, (pagesFrom_empty hn hc).trans hm, he, ?_⟩
  rw [he.size_of_empty, List.length_map, List.length_range]

theorem pagesFrom_of_exhausted (hc : (p.top + n - 1) / n = c) (h : Memory.addressSpace < c * n) :
    (p.pagesFrom p.top 0 (.empty n hn)).failure? = some .addressSpaceExhausted := by
  rw [pagesFrom_empty hn hc]
  exact (Memory.wellFormed_empty n hn).insertFrom_of_exhausted (p.length_page n)
    (by rwa [Memory.size_empty, Nat.zero_add])

theorem layOut_of_fits (hc : (p.top + n - 1) / n = c) (h : (c + k) * n ≤ Memory.addressSpace) :
    ∃ m, p.layOut (.empty n hn) k = ⟨m, none⟩ ∧ (Memory.empty n hn).Extends (p.body c n k) m ∧
      m.pages.size = c + k ∧ m.stop = (c + k) * n := by
  have hroom : c * n ≤ Memory.addressSpace := (Nat.mul_le_mul_right n (Nat.le_add_right c k)).trans h
  obtain ⟨m₁, h₁, he₁, hsize⟩ := pagesFrom_of_fits hn hc hroom
  obtain ⟨m₂, h₂, he₂⟩ := he₁.wellFormed.appendRam_of_fits (n := k) (by rwa [hsize, he₁.pageSize])
  rw [he₁.pageSize] at he₂
  have he : (Memory.empty n hn).Extends (p.body c n k) m₂ := he₁.trans he₂
  refine ⟨m₂, ?_, he, ?_, ?_⟩
  · rw [layOut, h₁, Insertion.next_of_none rfl, h₂]
  · rw [he.size_of_empty, length_body]
  · rw [he.stop_of_empty, length_body]

theorem layOut_of_exhausted (hc : (p.top + n - 1) / n = c) (h : Memory.addressSpace < (c + k) * n) :
    (p.layOut (.empty n hn) k).failure? = some .addressSpaceExhausted := by
  rw [layOut]
  by_cases hroom : c * n ≤ Memory.addressSpace
  · obtain ⟨m₁, h₁, he₁, hsize⟩ := pagesFrom_of_fits hn hc hroom
    rw [h₁, Insertion.next_of_none rfl]
    exact he₁.wellFormed.appendRam_of_exhausted (by rwa [hsize, he₁.pageSize])
  · have hfail := pagesFrom_of_exhausted hn hc (Nat.not_le.1 hroom)
    rw [Insertion.next_of_some hfail, hfail]

theorem load_of_fits (hc : (p.top + n - 1) / n = c)
    (h : (c + k) * n = 2 ^ 32 ∨ (c + k + 1) * n ≤ 2 ^ 32) :
    ∃ m, p.load (.empty n hn) k = .ok ⟨m, p.entry, BitVec.ofNat 32 ((c + k) * n)⟩ ∧
      (Memory.empty n hn).Extends
        (p.body c n k ++ if (c + k) * n = 2 ^ 32 then [] else [.guard]) m := by
  have hroom : (c + k) * n ≤ Memory.addressSpace := by
    rcases h with h | h
    · exact h.le
    · exact (Nat.mul_le_mul_right n (Nat.le_succ _)).trans h
  obtain ⟨m, hm, he, hsize, hstop⟩ := layOut_of_fits hn hc hroom
  have hpage : m.pageSize = n := he.pageSize
  simp only [load, hm, hstop]
  by_cases hfull : (c + k) * n = 2 ^ 32
  · refine ⟨m, if_neg ?_, ?_⟩
    · rw [hfull]
      decide
    · rwa [if_pos hfull, List.append_nil]
  · obtain ⟨hok, heg⟩ := he.wellFormed.insert_of_fits (s := .guard) (Nat.zero_le _) (by
      rw [hsize, hpage]
      exact h.resolve_left hfull)
    refine ⟨m.push .guard, ?_, ?_⟩
    · rw [if_pos (lt_of_le_of_ne hroom hfull), hok]
    · rw [if_neg hfull]
      exact he.trans heg

theorem load_of_exhausted (hc : (p.top + n - 1) / n = c)
    (h : ¬ ((c + k) * n = 2 ^ 32 ∨ (c + k + 1) * n ≤ 2 ^ 32)) :
    p.load (.empty n hn) k = .error .addressSpaceExhausted := by
  rw [not_or, Nat.not_le] at h
  obtain ⟨hfull, hlt⟩ := h
  rw [load]
  by_cases hroom : (c + k) * n ≤ Memory.addressSpace
  · obtain ⟨m, hm, he, hsize, hstop⟩ := layOut_of_fits hn hc hroom
    have hpage : m.pageSize = n := he.pageSize
    simp only [hm, hstop]
    rw [if_pos (lt_of_le_of_ne hroom hfull),
      he.wellFormed.insert_of_exhausted (s := .guard) (Nat.zero_le _) (by rwa [hsize, hpage])]
  · have hfail := layOut_of_exhausted hn hc (Nat.not_le.1 hroom)
    generalize p.layOut (.empty n hn) k = r at hfail ⊢
    obtain ⟨m, _⟩ := r
    cases hfail
    rfl

end Plan

variable {file : Array Byte} {h : Header} {h? : Option Header} {n k : Nat}

namespace Header

theorem top_plan (h : Header) (file : Array Byte) : (h.plan file).top = h.top := by
  have hmap : (h.plan file).top = (h.segments.map ProgramHeader.stop).foldl max 0 := by
    rw [Plan.top, plan, List.foldl_map, List.foldl_map]
    rfl
  rw [hmap, top]
  cases h.segments.map ProgramHeader.stop with
  | nil => rfl
  | cons t ts =>
    rw [List.max?_cons', List.foldl_cons, Nat.zero_max]
    rfl

theorem pages_plan (h : Header) (file : Array Byte) (n : Nat) :
    ((h.plan file).top + n - 1) / n = h.pages n := by
  rw [top_plan, pages]

theorem exists_load_of_fits (hn : 0 < n) (hl : h.Loadable file.size) (hf : h.Fits n k) :
    ∃ image, (Reading.ofHeader file (some h)).load (.empty n hn) k = .ok image ∧
      h.LaidOut file n k image := by
  obtain ⟨m, hm, he⟩ := Plan.load_of_fits hn (h.pages_plan file n) hf
  refine ⟨⟨m, (h.plan file).entry, BitVec.ofNat 32 ((h.pages n + k) * n)⟩, ?_,
    he.wellFormed, he.pageSize, ?_, BitVec.toNat_ofNat _ _, rfl⟩
  · simp only [Reading.load, plan_of_loadable hl, hm]
  · rw [he.storages, Memory.storages_empty, List.nil_append, Plan.body]

theorem load_of_exhausted (hn : 0 < n) (hl : h.Loadable file.size) (hf : ¬ h.Fits n k) :
    (Reading.ofHeader file (some h)).load (.empty n hn) k =
      .error (.memory .addressSpaceExhausted) := by
  simp only [Reading.load, plan_of_loadable hl, Plan.load_of_exhausted hn (h.pages_plan file n) hf]

theorem top_le (hs : ∀ p ∈ h.loads, p.Sound file.size) : h.top ≤ 2 ^ 32 := by
  rw [top]
  cases ht : (h.segments.map ProgramHeader.stop).max? with
  | none => exact Nat.zero_le _
  | some t =>
    obtain ⟨p, hp, rfl⟩ := List.mem_map.1 (List.max?_mem ht)
    exact (hs p (List.mem_filter.1 hp).1).address

theorem load_of_refused {e : LoadError} (hr : Refused file.size h? e) (m : Memory) (k : Nat) :
    (Reading.ofHeader file h?).load m k = .error e := by
  rw [Reading.load, plan_of_refused hr]

theorem verdict_load (file : Array Byte) (h? : Option Header) (hn : 0 < n) (k : Nat) :
    Verdict file n k h? ((Reading.ofHeader file h?).load (.empty n hn) k) := by
  rcases loadable_or_refused file h? with ⟨h, rfl, hl⟩ | ⟨e, hr⟩
  · by_cases hf : h.Fits n k
    · obtain ⟨image, hi, hlaid⟩ := exists_load_of_fits hn hl hf
      rw [hi]
      exact .loaded hl hf hlaid
    · rw [load_of_exhausted hn hl hf]
      exact .exhausted hl hf
  · rw [load_of_refused hr]
    exact .refused hr

end Header

/-- A file is loaded exactly when it was parsed, is meant for this machine, has segments, all of which are
sound, and leaves room for the stack and a guard page. Otherwise the error is that of the first check that
fails, and a lack of room has one error only. The loop over the pages ends after as many rounds as pages
are needed. -/
theorem Reading.load_ofHeader (file : Array Byte) (h? : Option Header) {n : Nat} (hn : 0 < n)
    (k : Nat) :
    ((∃ image, (Reading.ofHeader file h?).load (.empty n hn) k = .ok image) ↔
      ∃ h, h? = some h ∧ h.Loadable file.size ∧ h.Fits n k) ∧
    (∀ e, (Reading.ofHeader file h?).load (.empty n hn) k = .error e ↔ Header.Refused file.size h? e ∨
      ∃ h, h? = some h ∧ h.Loadable file.size ∧ ¬ h.Fits n k ∧ e = .memory .addressSpaceExhausted) ∧
    (∀ image, (Reading.ofHeader file h?).load (.empty n hn) k = .ok image →
      ∃ h, h? = some h ∧ h.LaidOut file n k image) ∧
    ∀ h, h? = some h → (∀ p ∈ h.loads, p.Sound file.size) → h.top ≤ 2 ^ 32 ∧
      (h.plan file).pagesFrom h.top 0 (.empty n hn) =
        Memory.insertFrom ((h.plan file).page n) 0 (h.pages n) (.empty n hn) := by
  have hv := Header.verdict_load file h? hn k
  refine ⟨⟨?_, ?_⟩, fun e => ⟨?_, ?_⟩, ?_, ?_⟩
  · rintro ⟨image, hi⟩
    rw [hi] at hv
    cases hv with
    | loaded hl hf _ => exact ⟨_, rfl, hl, hf⟩
  · rintro ⟨h, rfl, hl, hf⟩
    obtain ⟨image, hi, _⟩ := Header.exists_load_of_fits hn hl hf
    exact ⟨image, hi⟩
  · intro he
    rw [he] at hv
    cases hv with
    | exhausted hl hf => exact .inr ⟨_, rfl, hl, hf, rfl⟩
    | refused hr => exact .inl hr
  · rintro (hr | ⟨h, rfl, hl, hf, rfl⟩)
    · exact Header.load_of_refused hr _ k
    · exact Header.load_of_exhausted hn hl hf
  · intro image hi
    rw [hi] at hv
    cases hv with
    | loaded _ _ hlaid => exact ⟨_, rfl, hlaid⟩
  · rintro h rfl hs
    refine ⟨Header.top_le hs, ?_⟩
    rw [← h.top_plan file, Plan.pagesFrom_empty hn (h.pages_plan file n)]

def sample : Array Byte :=
  #[0x7f, 0x45, 0x4c, 0x46, 1, 1, 1, 0, 0, 0, 0, 0, 0, 0, 0, 0,
    2, 0, 0xf3, 0, 1, 0, 0, 0, 8, 0, 0, 0, 52, 0, 0, 0, 0, 0, 0, 0,
    0, 0, 0, 0, 52, 0, 32, 0, 2, 0, 40, 0, 0, 0, 0, 0,
    1, 0, 0, 0, 116, 0, 0, 0, 2, 0, 0, 0, 2, 0, 0, 0, 4, 0, 0, 0, 4, 0, 0, 0, 5, 0, 0, 0, 4, 0, 0, 0,
    1, 0, 0, 0, 120, 0, 0, 0, 4, 0, 0, 0, 4, 0, 0, 0, 1, 0, 0, 0, 7, 0, 0, 0, 6, 0, 0, 0, 4, 0, 0, 0,
    1, 2, 3, 4, 9]

def sampleHeader : Header := ⟨false, .little, 243, 8, [⟨1, 5, 116, 2, 4, 4⟩, ⟨1, 6, 120, 4, 1, 7⟩]⟩

theorem read?_sample : Header.read? sample = some sampleHeader := by
  decide +kernel

theorem loadable_sample : sampleHeader.Loadable sample.size where
  narrow := ⟨rfl, rfl⟩
  machine := rfl
  sound := by
    have hloads : sampleHeader.loads = [⟨1, 5, 116, 2, 4, 4⟩, ⟨1, 6, 120, 4, 1, 7⟩] := rfl
    rw [hloads]
    refine List.forall_mem_cons.2 ⟨⟨?_, ?_, ?_⟩, List.forall_mem_singleton.2 ⟨?_, ?_, ?_⟩⟩ <;> decide
  nonempty := ⟨⟨1, 5, 116, 2, 4, 4⟩, List.mem_cons_self, by decide⟩

theorem Reading.load_ofHeader_sample : 0 < 0x40000000 ∧
    (∃ image, (read sample).load (.empty 0x40000000 (by decide)) 3 = .ok image ∧
      image.stackPointer.toNat = 0 ∧ image.memory.storages.length = 4) ∧
    (read sample).load (.empty 0x40000000 (by decide)) 4 = .error (.memory .addressSpaceExhausted) := by
  have hn : 0 < 0x40000000 := by decide
  obtain ⟨hok, _, hlaid, _⟩ := Reading.load_ofHeader sample (Header.read? sample) hn 3
  obtain ⟨_, herror, _⟩ := Reading.load_ofHeader sample (Header.read? sample) hn 4
  obtain ⟨image, hi⟩ := hok.2 ⟨_, read?_sample, loadable_sample, .inl (by decide)⟩
  obtain ⟨h, hh, hl⟩ := hlaid image hi
  cases read?_sample.symm.trans hh
  refine ⟨hn, ⟨image, hi, hl.stackPointer, ?_⟩,
    (herror _).2 (.inr ⟨_, read?_sample, loadable_sample, ?_, rfl⟩)⟩
  · have hpages : sampleHeader.pages 0x40000000 = 1 := by decide
    rw [hl.storages, hpages, if_pos (by decide), List.append_nil, List.length_append, List.length_map,
      List.length_range, List.length_replicate]
  · unfold Header.Fits
    decide

end Hart.Executable
