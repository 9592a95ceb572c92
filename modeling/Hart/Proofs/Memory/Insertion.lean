import Hart.Proofs.Memory.Layout

namespace Hart

theorem Insertion.next_of_none {r : Insertion} (h : r.failure? = none) (f : Memory → Insertion) :
    r.next f = f r.memory := by
  rw [next, h]

theorem Insertion.next_of_some {r : Insertion} {e : MemoryError} (h : r.failure? = some e)
    (f : Memory → Insertion) : r.next f = r := by
  rw [next, h]

namespace Memory

def storages (m : Memory) : List Storage := m.pages.toList.map Page.storage

variable {m m' : Memory} {s : Storage} {f : Nat → Storage} {i n : Nat}

theorem length_storages (m : Memory) : m.storages.length = m.pages.size := by
  rw [storages, List.length_map, Array.length_toList]

theorem storages_push (m : Memory) (s : Storage) : (m.push s).storages = m.storages ++ [s] := by
  simp [storages, push]

theorem size_push (m : Memory) (s : Storage) : (m.push s).pages.size = m.pages.size + 1 :=
  Array.size_push _

@[simp] theorem pageSize_push (m : Memory) (s : Storage) : (m.push s).pageSize = m.pageSize := rfl

@[simp] theorem size_empty (n : Nat) (h : 0 < n) : (empty n h).pages.size = 0 := rfl

@[simp] theorem pageSize_empty (n : Nat) (h : 0 < n) : (empty n h).pageSize = n := rfl

@[simp] theorem storages_empty (n : Nat) (h : 0 < n) : (empty n h).storages = [] := rfl

structure Extends (m : Memory) (ss : List Storage) (m' : Memory) : Prop where
  wellFormed : m'.WellFormed
  pageSize : m'.pageSize = m.pageSize
  storages : m'.storages = m.storages ++ ss

theorem WellFormed.extends_nil (hm : m.WellFormed) : m.Extends [] m :=
  ⟨hm, rfl, (List.append_nil _).symm⟩

theorem WellFormed.extends_push (hm : m.WellFormed) (h : m.refusal? s = none) :
    m.Extends [s] (m.push s) :=
  ⟨hm.push h, rfl, storages_push m s⟩

theorem Extends.trans {m₁ m₂ m₃ : Memory} {ss ts : List Storage} (h : m₁.Extends ss m₂)
    (h' : m₂.Extends ts m₃) : m₁.Extends (ss ++ ts) m₃ where
  wellFormed := h'.wellFormed
  pageSize := h'.pageSize.trans h.pageSize
  storages := by rw [h'.storages, h.storages, List.append_assoc]

theorem Extends.size {ss : List Storage} (h : m.Extends ss m') :
    m'.pages.size = m.pages.size + ss.length := by
  rw [← length_storages, h.storages, List.length_append, length_storages]

theorem Extends.size_of_empty {h : 0 < n} {ss : List Storage} (he : (empty n h).Extends ss m) :
    m.pages.size = ss.length := by
  rw [he.size, size_empty, Nat.zero_add]

theorem Extends.stop_of_empty {h : 0 < n} {ss : List Storage} (he : (empty n h).Extends ss m) :
    m.stop = ss.length * n := by
  rw [he.wellFormed.stop_eq, he.size_of_empty, he.pageSize, pageSize_empty]

theorem WellFormed.peek_of_storage (hm : m.WellFormed) {a : Word}
    (hs : m.storages[a.toNat / m.pageSize]? = some s) (w : Width) :
    m.peek w a = s.peek w (a.toNat % m.pageSize) a := by
  rw [storages, List.getElem?_map, Option.map_eq_some_iff] at hs
  obtain ⟨p, hp, rfl⟩ := hs
  rw [Array.getElem?_toList] at hp
  obtain ⟨hi, hfit⟩ := hm.fits_of_pageAt? hp
  have hc : p.contains a = true := (hfit.contains_iff m.pageSize_pos).2 rfl
  rw [peek, pageAt?, hp]
  simp only [Page.peek, if_pos hc, hfit.start, Nat.mod_eq_sub_div_mul]

theorem Extends.peek_of_empty {h : 0 < n} {ss : List Storage} (he : (empty n h).Extends ss m) {a : Word}
    (hs : ss[a.toNat / n]? = some s) (w : Width) : m.peek w a = s.peek w (a.toNat % n) a := by
  have hn : m.pageSize = n := he.pageSize
  rw [he.wellFormed.peek_of_storage (s := s) (by rw [he.storages, hn]; exact hs) w, hn]

theorem Extends.peek_behind {ss : List Storage} (he : m.Extends ss m') (hm : m.WellFormed) {a : Word}
    (ha : a.toNat = m.stop + i) (hs : ss[i / m.pageSize]? = some s) (w : Width) :
    m'.peek w a = s.peek w (i % m.pageSize) a := by
  rw [hm.stop_eq] at ha
  have hdiv : a.toNat / m'.pageSize = m.pages.size + i / m.pageSize := by
    rw [he.pageSize, ha, Nat.add_comm, Nat.add_mul_div_right _ _ m.pageSize_pos, Nat.add_comm]
  have hmod : a.toNat % m'.pageSize = i % m.pageSize := by
    rw [he.pageSize, ha, Nat.add_comm, Nat.add_mul_mod_self_right]
  rw [he.wellFormed.peek_of_storage (s := s) _ w, hmod]
  rw [hdiv, he.storages, List.getElem?_append_right (by rw [length_storages]; exact Nat.le_add_right _ _),
    length_storages, Nat.add_sub_cancel_left, hs]

theorem WellFormed.refusal?_of_length (hm : m.WellFormed) (hs : s.length ≤ m.pageSize) :
    m.refusal? s = if (m.pages.size + 1) * m.pageSize ≤ addressSpace then none
      else some .addressSpaceExhausted := by
  rw [refusal?, if_neg (Nat.not_lt.2 hs), hm.stop_eq, ← Nat.succ_mul]
  split
  · next h => rw [if_neg (Nat.not_le.2 h)]
  · next h => rw [if_pos (Nat.not_lt.1 h)]

theorem WellFormed.insert_of_fits (hm : m.WellFormed) (hs : s.length ≤ m.pageSize)
    (h : (m.pages.size + 1) * m.pageSize ≤ addressSpace) :
    m.insert s = .ok (m.push s) ∧ m.Extends [s] (m.push s) := by
  have hr : m.refusal? s = none := by
    rw [hm.refusal?_of_length hs, if_pos h]
  refine ⟨?_, hm.extends_push hr⟩
  rw [insert, hr]

theorem WellFormed.foldlM_insert_of_fits {ss : List Storage} (hm : m.WellFormed)
    (hs : ∀ s ∈ ss, s.length ≤ m.pageSize)
    (h : (m.pages.size + ss.length) * m.pageSize ≤ addressSpace) :
    ∃ m', ss.foldlM insert m = .ok m' ∧ m.Extends ss m' := by
  induction ss generalizing m with
  | nil => exact ⟨m, rfl, hm.extends_nil⟩
  | cons s ss ih =>
    rw [List.length_cons, Nat.add_comm ss.length, ← Nat.add_assoc] at h
    obtain ⟨hins, he⟩ := hm.insert_of_fits (hs s (List.mem_cons_self ..))
      ((Nat.mul_le_mul_right _ (Nat.le_add_right _ _)).trans h)
    obtain ⟨m', hm', he'⟩ := ih he.wellFormed (fun t ht => hs t (List.mem_cons_of_mem _ ht))
      (by rw [size_push, pageSize_push]; exact h)
    refine ⟨m', ?_, he.trans he'⟩
    rw [List.foldlM_cons, hins]
    exact hm'

theorem WellFormed.insert_of_exhausted (hm : m.WellFormed) (hs : s.length ≤ m.pageSize)
    (h : addressSpace < (m.pages.size + 1) * m.pageSize) :
    m.insert s = .error .addressSpaceExhausted := by
  rw [insert, hm.refusal?_of_length hs, if_neg (Nat.not_le.2 h)]

theorem WellFormed.insertFrom_of_fits (hm : m.WellFormed) (hf : ∀ j, (f j).length ≤ m.pageSize)
    (h : (m.pages.size + n) * m.pageSize ≤ addressSpace) :
    ∃ m', insertFrom f i n m = ⟨m', none⟩ ∧ m.Extends ((List.range' i n).map f) m' := by
  induction n generalizing i m with
  | zero => exact ⟨m, rfl, hm.extends_nil⟩
  | succ n ih =>
    have hroom : (m.pages.size + 1) * m.pageSize ≤ addressSpace :=
      (Nat.mul_le_mul_right _ (by omega)).trans h
    have hr : m.refusal? (f i) = none := by
      rw [hm.refusal?_of_length (hf i), if_pos hroom]
    have hsize : ((m.push (f i)).pages.size + n) * (m.push (f i)).pageSize ≤ addressSpace := by
      rw [size_push, pageSize_push, Nat.add_right_comm]
      exact h
    obtain ⟨m', hm', he⟩ := ih (i := i + 1) (hm.push hr) hf hsize
    refine ⟨m', ?_, (hm.extends_push hr).trans he⟩
    rw [insertFrom, hr]
    exact hm'

theorem WellFormed.extends_of_exhausted (hm : m.WellFormed) (hf : ∀ j, (f j).length ≤ m.pageSize)
    (h : addressSpace < (m.pages.size + n) * m.pageSize) :
    ∃ m', insertFrom f i n m = ⟨m', some .addressSpaceExhausted⟩ ∧
      m.Extends ((List.range' i (addressSpace / m.pageSize - m.pages.size)).map f) m' := by
  induction n generalizing i m with
  | zero => exact absurd hm.fits (Nat.not_le.2 h)
  | succ n ih =>
    have hr := hm.refusal?_of_length (hf i)
    have hfits := Nat.le_div_iff_mul_le m.pageSize_pos (x := m.pages.size + 1) (y := addressSpace)
    rw [insertFrom]
    split at hr
    · next hroom =>
      obtain ⟨k, hk⟩ := Nat.exists_eq_add_of_lt (hfits.2 hroom)
      have hsize : addressSpace < ((m.push (f i)).pages.size + n) * (m.push (f i)).pageSize := by
        rw [size_push, pageSize_push, Nat.add_right_comm]
        exact h
      obtain ⟨m', hm', he⟩ := ih (i := i + 1) (hm.push hr) hf hsize
      refine ⟨m', by rw [hr]; exact hm', ?_⟩
      have hcount : addressSpace / m.pageSize - m.pages.size = k + 1 := by omega
      have hrest : addressSpace / (m.push (f i)).pageSize - (m.push (f i)).pages.size = k := by
        rw [size_push, pageSize_push]
        omega
      rw [hrest] at he
      rw [hcount, List.range'_succ]
      exact (hm.extends_push hr).trans he
    · next hroom =>
      have hcount : addressSpace / m.pageSize - m.pages.size = 0 := by omega
      rw [hr, hcount]
      exact ⟨m, rfl, hm.extends_nil⟩

theorem WellFormed.insertFrom_of_exhausted (hm : m.WellFormed) (hf : ∀ j, (f j).length ≤ m.pageSize)
    (h : addressSpace < (m.pages.size + n) * m.pageSize) :
    (insertFrom f i n m).failure? = some .addressSpaceExhausted := by
  obtain ⟨m', hm', _⟩ := hm.extends_of_exhausted (i := i) hf h
  rw [hm']

theorem WellFormed.appendRam_of_fits (hm : m.WellFormed)
    (h : (m.pages.size + n) * m.pageSize ≤ addressSpace) :
    ∃ m', m.appendRam n = ⟨m', none⟩ ∧ m.Extends (List.replicate n (.zeroedRam m.pageSize)) m' := by
  obtain ⟨m', hm', he⟩ := hm.insertFrom_of_fits (f := fun _ => .zeroedRam m.pageSize) (i := 0)
    (fun _ => Nat.le_refl _) h
  rw [List.map_const', List.length_range'] at he
  exact ⟨m', hm', he⟩

theorem WellFormed.appendRam_of_exhausted (hm : m.WellFormed)
    (h : addressSpace < (m.pages.size + n) * m.pageSize) :
    (m.appendRam n).failure? = some .addressSpaceExhausted :=
  hm.insertFrom_of_exhausted (fun _ => Nat.le_refl _) h

/-- The insertion puts pages with the storages `ss` behind `m` if the address space has room for all of them,
and otherwise fails for want of room. -/
structure Adds (m : Memory) (ss : List Storage) (r : Insertion) : Prop where
  fits : (m.pages.size + ss.length) * m.pageSize ≤ addressSpace →
    r.failure? = none ∧ m.Extends ss r.memory
  exhausted : addressSpace < (m.pages.size + ss.length) * m.pageSize →
    r.failure? = some .addressSpaceExhausted

theorem WellFormed.adds_insertFrom (hm : m.WellFormed) (hf : ∀ j, (f j).length ≤ m.pageSize) (i n : Nat) :
    m.Adds ((List.range' i n).map f) (insertFrom f i n m) where
  fits h := by
    rw [List.length_map, List.length_range'] at h
    obtain ⟨m', hm', he⟩ := hm.insertFrom_of_fits (i := i) hf h
    rw [hm']
    exact ⟨rfl, he⟩
  exhausted h := by
    rw [List.length_map, List.length_range'] at h
    exact hm.insertFrom_of_exhausted hf h

theorem WellFormed.adds_append (hm : m.WellFormed) (hs : s.length ≤ m.pageSize) :
    m.Adds [s] (m.append s) :=
  hm.adds_insertFrom (fun _ => hs) 0 1

theorem WellFormed.adds_appendRam (hm : m.WellFormed) (n : Nat) :
    m.Adds (List.replicate n (.zeroedRam m.pageSize)) (m.appendRam n) := by
  have h := hm.adds_insertFrom (f := fun _ => .zeroedRam m.pageSize) (fun _ => Nat.le_refl _) 0 n
  rw [List.map_const', List.length_range'] at h
  exact h

theorem Adds.next {r : Insertion} {g : Memory → Insertion} {ss ts : List Storage} (h : m.Adds ss r)
    (hg : ∀ m', m.Extends ss m' → m'.Adds ts (g m')) : m.Adds (ss ++ ts) (r.next g) := by
  have hsize (m' : Memory) (he : m.Extends ss m') : (m'.pages.size + ts.length) * m'.pageSize =
      (m.pages.size + (ss ++ ts).length) * m.pageSize := by
    rw [he.size, he.pageSize, List.length_append, Nat.add_assoc]
  constructor
  · intro hroom
    have hfirst : (m.pages.size + ss.length) * m.pageSize ≤ addressSpace := by
      refine (Nat.mul_le_mul_right _ ?_).trans hroom
      rw [List.length_append]
      omega
    obtain ⟨hnone, he⟩ := h.fits hfirst
    obtain ⟨hnone', he'⟩ := (hg _ he).fits ((hsize _ he).trans_le hroom)
    rw [Insertion.next_of_none hnone]
    exact ⟨hnone', he.trans he'⟩
  · intro hroom
    by_cases hfirst : (m.pages.size + ss.length) * m.pageSize ≤ addressSpace
    · obtain ⟨hnone, he⟩ := h.fits hfirst
      rw [Insertion.next_of_none hnone]
      exact (hg _ he).exhausted (hroom.trans_eq (hsize _ he).symm)
    · have hfail := h.exhausted (Nat.lt_of_not_le hfirst)
      rw [Insertion.next_of_some hfail, hfail]

end Memory

end Hart
