import Hart.Memory.Basic
import Mathlib

/-! Pages stay back to back from address zero, whatever is inserted and stored, and whether it succeeds
or not. So the page of an address is found by a division, up to the end of the address space. -/

namespace Hart

theorem Width.bytes_le (w : Width) : w.bytes ≤ 4 := by
  cases w <;> decide

theorem ByteStore.size_write? {s t : ByteStore} {w : Width} {offset : Nat} {v : Word}
    (h : s.write? w offset v = some t) : t.size = s.size := by
  have hfold (l : List Nat) (u : ByteStore) :
      (l.foldl (fun t i => t.set (offset + i) (v.byte i)) u).size = u.size := by
    induction l generalizing u with
    | nil => rfl
    | cons i l ih => rw [List.foldl_cons, ih, size_set]
  rw [write?] at h
  split at h
  · cases h
    exact hfold _ _
  · cases h

namespace Storage

variable {s t : Storage} {w : Width} {offset : Nat} {a v : Word}

theorem poke_keeps (h : s.poke w offset a v = .ok t) : t.rights = s.rights ∧ t.length = s.length := by
  cases s with
  | ram bytes =>
    rw [poke] at h
    split at h
    · next hw =>
      cases h
      exact ⟨rfl, ByteStore.size_write? hw⟩
    · cases h
  | image bytes => cases h
  | zero =>
    cases h
    exact ⟨rfl, rfl⟩
  | guard => cases h

theorem peek_ne_outOfRange (s : Storage) (w : Width) (offset : Nat) (a b : Word) :
    s.peek w offset a ≠ .error (.outOfRange b) := by
  cases s <;> exact nofun

theorem poke_ne_outOfRange (s : Storage) (w : Width) (offset : Nat) (a v b : Word) :
    s.poke w offset a v ≠ .error (.outOfRange b) := by
  cases s with
  | ram bytes =>
    rw [poke]
    split <;> exact nofun
  | image bytes => exact nofun
  | zero => exact nofun
  | guard => exact nofun

end Storage

namespace Page

variable {p q : Page} {n i : Nat} {w : Width} {a v : Word}

structure Fits (p : Page) (n i : Nat) : Prop where
  start : p.start = i * n
  stop : p.stop = (i + 1) * n
  length : p.storage.length ≤ n
  rights : p.rights = p.storage.rights

theorem Fits.contains_iff (h : p.Fits n i) (hn : 0 < n) : p.contains a = true ↔ a.toNat / n = i := by
  rw [contains, Bool.and_eq_true, decide_eq_true_eq, decide_eq_true_eq, h.start, h.stop,
    ← Nat.le_div_iff_mul_le hn, ← Nat.div_lt_iff_lt_mul hn]
  omega

theorem poke_eq_ok_iff : p.poke w a v = .ok q ↔ p.contains a = true ∧
    ∃ s, p.storage.poke w (a.toNat - p.start) a v = .ok s ∧ q = { p with storage := s } := by
  rw [poke]
  split
  · next hc =>
    cases hs : p.storage.poke w (a.toNat - p.start) a v with
    | ok s => simp [hc, eq_comm]
    | error e => simp
  · next hc => simp [hc]

theorem peek_ne_outOfRange (h : p.contains a = true) {b : Word} :
    p.peek w a ≠ .error (.outOfRange b) := by
  rw [peek, if_pos h]
  exact Storage.peek_ne_outOfRange _ _ _ _ _

theorem poke_ne_outOfRange (h : p.contains a = true) {b : Word} :
    p.poke w a v ≠ .error (.outOfRange b) := by
  rw [poke, if_pos h]
  have hs := p.storage.poke_ne_outOfRange w (a.toNat - p.start) a v b
  cases hp : p.storage.poke w (a.toNat - p.start) a v with
  | ok s => exact nofun
  | error e =>
    rintro ⟨⟩
    exact hs hp

theorem Fits.poke (h : p.Fits n i) (hp : p.poke w a v = .ok q) : q.Fits n i := by
  obtain ⟨_, s, hs, rfl⟩ := poke_eq_ok_iff.1 hp
  obtain ⟨hr, hl⟩ := Storage.poke_keeps hs
  exact
    { start := h.start
      stop := h.stop
      length := hl.trans_le h.length
      rights := h.rights.trans hr.symm }

end Page

namespace Memory

variable {m m' : Memory} {s : Storage} {w : Width} {a v : Word} {p : Page}

structure WellFormed (m : Memory) : Prop where
  page : ∀ i (h : i < m.pages.size), (m.pages[i]).Fits m.pageSize i
  fits : m.pages.size * m.pageSize ≤ addressSpace

theorem wellFormed_empty (n : Nat) (h : 0 < n) : (empty n h).WellFormed where
  page i hi := absurd hi (Nat.not_lt_zero i)
  fits := by
    rw [empty, Array.size_empty, Nat.zero_mul]
    exact Nat.zero_le _

theorem WellFormed.stop_eq (hm : m.WellFormed) : m.stop = m.pages.size * m.pageSize := by
  rw [stop, Array.back?]
  cases hn : m.pages.size with
  | zero => simp [hn]
  | succ n =>
    have hlt : n < m.pages.size := by omega
    rw [Nat.add_sub_cancel, Array.getElem?_eq_getElem hlt]
    exact (hm.page n hlt).stop

theorem refusal?_eq_none_iff : m.refusal? s = none ↔
    s.length ≤ m.pageSize ∧ m.stop + m.pageSize ≤ addressSpace := by
  rw [refusal?]
  split
  · simp; omega
  · split
    · simp; omega
    · simp; omega

theorem WellFormed.push (hm : m.WellFormed) (h : m.refusal? s = none) : (m.push s).WellFormed := by
  obtain ⟨hs, hstop⟩ := refusal?_eq_none_iff.1 h
  rw [hm.stop_eq] at hstop
  constructor
  · intro i hi
    simp only [Memory.push, Array.size_push] at hi
    simp only [Memory.push, Array.getElem_push]
    split
    · next hlt => exact hm.page i hlt
    · next hge =>
      obtain rfl : i = m.pages.size := by omega
      exact
        { start := hm.stop_eq
          stop := by rw [hm.stop_eq, Nat.succ_mul]
          length := hs
          rights := rfl }
  · simp only [Memory.push, Array.size_push, Nat.succ_mul]
    exact hstop

theorem poke_eq_ok_iff : m.poke w a v = .ok m' ↔
    ∃ (h : a.toNat / m.pageSize < m.pages.size) (q : Page),
      (m.pages[a.toNat / m.pageSize]).poke w a v = .ok q ∧
      m' = { m with pages := m.pages.set (a.toNat / m.pageSize) q } := by
  rw [poke]
  split
  · next h =>
    cases hq : (m.pages[a.toNat / m.pageSize]).poke w a v with
    | ok q => simp [h, hq, eq_comm]
    | error e => simp [hq]
  · next h => simp [h]

theorem WellFormed.poke (hm : m.WellFormed) (h : m.poke w a v = .ok m') : m'.WellFormed := by
  obtain ⟨hi, q, hq, rfl⟩ := poke_eq_ok_iff.1 h
  constructor
  · intro i hlt
    simp only [Array.size_set] at hlt
    simp only [Array.getElem_set]
    split
    · next he =>
      subst he
      exact (hm.page _ hi).poke hq
    · exact hm.page i hlt
  · simpa only [Array.size_set] using hm.fits

theorem append_eq (m : Memory) (s : Storage) : m.append s = match m.insert s with
    | .error e => ⟨m, some e⟩
    | .ok m => ⟨m, none⟩ := by
  rw [append, insertFrom_succ]
  cases m.insert s <;> rfl

inductive Operation
  | insert (storage : Storage)
  | insertImage (bytes : Array Byte) (writable : Bool)
  | poke (width : Width) (address value : Word)

def Operation.apply (m : Memory) : Operation → Memory
  | .insert s => (m.append s).memory
  | .insertImage bytes writable => (m.insertImage bytes writable).memory
  | .poke w a v =>
    match m.poke w a v with
    | .ok m' => m'
    | .error _ => m

def after (m : Memory) (ops : List Operation) : Memory := ops.foldl Operation.apply m

theorem after_cons (m : Memory) (o : Operation) (ops : List Operation) :
    m.after (o :: ops) = (o.apply m).after ops := rfl

theorem apply_insert (m : Memory) (s : Storage) :
    (Operation.insert s).apply m = if m.refusal? s = none then m.push s else m := by
  rw [Operation.apply, append_eq, insert]
  cases m.refusal? s <;> rfl

theorem insertFrom_memory (f : Nat → Storage) (i n : Nat) (m : Memory) :
    ∃ k ≤ n, (insertFrom f i n m).memory = m.after ((List.range' i k).map fun j => .insert (f j)) := by
  induction n generalizing i m with
  | zero => exact ⟨0, Nat.le_refl 0, rfl⟩
  | succ n ih =>
    simp only [insertFrom]
    cases hr : m.refusal? (f i) with
    | some e => exact ⟨0, Nat.zero_le _, rfl⟩
    | none =>
      obtain ⟨k, hk, h⟩ := ih (i + 1) (m.push (f i))
      refine ⟨k + 1, Nat.succ_le_succ hk, ?_⟩
      rw [List.range'_succ, List.map_cons, after_cons, apply_insert, if_pos hr]
      exact h

theorem insertImage_memory (m : Memory) (bytes : Array Byte) (writable : Bool) :
    ∃ storages : List Storage, (m.insertImage bytes writable).memory = m.after (storages.map .insert) := by
  obtain ⟨k, _, h⟩ := insertFrom_memory _ 0 (m.pagesFor bytes.size) m
  exact ⟨_, h.trans (congrArg m.after (List.map_map (l := List.range' 0 k)).symm)⟩

def Operation.Keeps (o : Operation) : Prop :=
  ∀ m : Memory, m.WellFormed → (o.apply m).WellFormed ∧ (o.apply m).pageSize = m.pageSize

theorem WellFormed.after_of_keeps (hm : m.WellFormed) {ops : List Operation}
    (h : ∀ o ∈ ops, o.Keeps) : (m.after ops).WellFormed ∧ (m.after ops).pageSize = m.pageSize := by
  induction ops generalizing m with
  | nil => exact ⟨hm, rfl⟩
  | cons o ops ih =>
    obtain ⟨ho, hn⟩ := h o List.mem_cons_self m hm
    obtain ⟨hr, hr'⟩ := ih ho fun o ho => h o (List.mem_cons_of_mem _ ho)
    exact ⟨hr, hr'.trans hn⟩

theorem Operation.insert_keeps (s : Storage) : (insert s).Keeps := by
  intro m hm
  rw [apply_insert]
  split
  · next h => exact ⟨hm.push h, rfl⟩
  · exact ⟨hm, rfl⟩

theorem Operation.keeps (o : Operation) : o.Keeps := by
  cases o with
  | insert s => exact insert_keeps s
  | insertImage bytes writable =>
    intro m hm
    obtain ⟨storages, h⟩ := insertImage_memory m bytes writable
    rw [apply, h]
    refine hm.after_of_keeps fun o ho => ?_
    obtain ⟨s, _, rfl⟩ := List.mem_map.1 ho
    exact insert_keeps s
  | poke w a v =>
    intro m hm
    rw [apply]
    cases h : m.poke w a v with
    | ok m' =>
      obtain ⟨_, _, _, rfl⟩ := poke_eq_ok_iff.1 h
      exact ⟨hm.poke h, rfl⟩
    | error e => exact ⟨hm, rfl⟩

theorem WellFormed.after (hm : m.WellFormed) (ops : List Operation) :
    (m.after ops).WellFormed ∧ (m.after ops).pageSize = m.pageSize :=
  hm.after_of_keeps fun o _ => o.keeps

theorem WellFormed.contains_iff (hm : m.WellFormed) {i : Nat} (hi : i < m.pages.size) :
    (m.pages[i]).contains a = true ↔ a.toNat / m.pageSize = i :=
  (hm.page i hi).contains_iff m.pageSize_pos

theorem WellFormed.pageAt?_eq_some_iff (hm : m.WellFormed) :
    m.pageAt? a = some p ↔ p ∈ m.pages ∧ p.contains a = true := by
  rw [pageAt?, Array.getElem?_eq_some_iff, Array.mem_iff_getElem]
  constructor
  · rintro ⟨hi, rfl⟩
    exact ⟨⟨_, hi, rfl⟩, (hm.contains_iff hi).2 rfl⟩
  · rintro ⟨⟨i, hi, rfl⟩, hc⟩
    cases (hm.contains_iff hi).1 hc
    exact ⟨hi, rfl⟩

theorem WellFormed.fits_of_pageAt? (hm : m.WellFormed) (h : m.pageAt? a = some p) :
    a.toNat / m.pageSize < m.pages.size ∧ p.Fits m.pageSize (a.toNat / m.pageSize) := by
  obtain ⟨hi, rfl⟩ := Array.getElem?_eq_some_iff.1 h
  exact ⟨hi, hm.page _ hi⟩

theorem WellFormed.bounds (hm : m.WellFormed) (h : m.pageAt? a = some p) :
    p.start ≤ a.toNat ∧ p.stop = p.start + m.pageSize ∧ p.stop ≤ 2 ^ 32 := by
  obtain ⟨hi, hp⟩ := hm.fits_of_pageAt? h
  have hle : p.stop ≤ m.pages.size * m.pageSize := by
    rw [hp.stop]
    exact Nat.mul_le_mul_right _ hi
  refine ⟨?_, ?_, hle.trans hm.fits⟩
  · rw [hp.start]
    exact Nat.div_mul_le_self _ _
  · rw [hp.stop, hp.start, Nat.succ_mul]

theorem WellFormed.pageAt?_eq_none_iff (hm : m.WellFormed) :
    m.pageAt? a = none ↔ ∀ p ∈ m.pages, p.contains a = false := by
  simp only [Option.eq_none_iff_forall_ne_some, ne_eq, hm.pageAt?_eq_some_iff, not_and,
    Bool.not_eq_true]

/-- Pages of `n` bytes lie back to back from address zero after whatever was done to an empty memory,
also if an operation failed, and an insertion that fails changes nothing. The page of an address is the
only one that contains it, so that the check of an access against its page never fails, and no sum of
addresses exceeds 2^33. -/
theorem layout_after {n : Nat} (h : 0 < n) (hn : n < 2 ^ 32) (ops : List Operation) :
    let m := (empty n h).after ops
    m.pageSize = n ∧
    (∀ i (hi : i < m.pages.size), (m.pages[i]).Fits n i) ∧
    (m.stop = m.pages.size * n ∧ m.stop ≤ 2 ^ 32) ∧
    (∀ s e, m.insert s = .error e → (Operation.insert s).apply m = m) ∧
    (∀ bytes writable, ∃ storages : List Storage,
      (m.insertImage bytes writable).memory = m.after (storages.map .insert)) ∧
    (∀ a p, m.pageAt? a = some p ↔ p ∈ m.pages ∧ p.contains a = true) ∧
    (∀ a i j (hi : i < m.pages.size) (hj : j < m.pages.size),
      (m.pages[i]).contains a = true → (m.pages[j]).contains a = true → i = j) ∧
    (∀ a, m.pageAt? a = none ↔ ∀ p ∈ m.pages, p.contains a = false) ∧
    (∀ a p, m.pageAt? a = some p → ∀ w v b,
      p.peek w a ≠ .error (.outOfRange b) ∧ p.poke w a v ≠ .error (.outOfRange b)) ∧
    (m.stop + n < 2 ^ 33 ∧ ∀ a p, m.pageAt? a = some p →
      p.start ≤ a.toNat ∧ p.start + n ≤ 2 ^ 32 ∧ ∀ w : Width, a.toNat - p.start + w.bytes < 2 ^ 33) := by
  intro m
  obtain ⟨hm, hsize⟩ := (wellFormed_empty n h).after ops
  have hsize : m.pageSize = n := hsize
  have hstop : m.stop = m.pages.size * n := hsize ▸ hm.stop_eq
  have hfits : m.stop ≤ 2 ^ 32 := hm.stop_eq.trans_le hm.fits
  refine ⟨hsize, hsize ▸ hm.page, ⟨hstop, hfits⟩, fun s e he => ?_, insertImage_memory m,
    fun a p => hm.pageAt?_eq_some_iff, fun a i j hi hj hai haj => ?_, fun a => hm.pageAt?_eq_none_iff,
    fun a p hp w v b => ?_, by omega, fun a p hp => ?_⟩
  · rw [Operation.apply, append_eq, he]
  · exact ((hm.contains_iff hi).1 hai).symm.trans ((hm.contains_iff hj).1 haj)
  · have hc := (hm.pageAt?_eq_some_iff.1 hp).2
    exact ⟨Page.peek_ne_outOfRange hc, Page.poke_ne_outOfRange hc⟩
  · obtain ⟨hstart, hend, hle⟩ := hm.bounds hp
    rw [hsize] at hend
    have := a.isLt
    refine ⟨hstart, by omega, fun w => ?_⟩
    have := w.bytes_le
    omega

theorem layout_after_guard :
    let m := (empty 0x60000000 (by decide)).after
      [.insertImage #[1, 2] true, .insert .guard, .poke .half 1 7, .insert .zero]
    (0 < 0x60000000 ∧ 0x60000000 < 2 ^ 32) ∧ m.pages.size = 2 ∧ m.stop = 0xc0000000 ∧
      m.insert .zero = .error .addressSpaceExhausted ∧ (Operation.insert .zero).apply m = m ∧
      m.pageAt? 0xc0000000 = none := by
  have hsize : ((empty 0x60000000 (by decide)).after
    [.insertImage #[1, 2] true, .insert .guard, .poke .half 1 7, .insert .zero]).pages.size = 2 := by rfl
  have hz : ((empty 0x60000000 (by decide)).after
    [.insertImage #[1, 2] true, .insert .guard, .poke .half 1 7, .insert .zero]).insert .zero =
      .error .addressSpaceExhausted := by rfl
  obtain ⟨_, hfits, ⟨hstop, _⟩, hinsert, _, _, _, hnone, _⟩ :=
    layout_after (n := 0x60000000) (by decide) (by decide)
      [.insertImage #[1, 2] true, .insert .guard, .poke .half 1 7, .insert .zero]
  refine ⟨by decide, hsize, by rw [hstop, hsize], hz, hinsert _ _ hz, (hnone _).2 fun p hp => ?_⟩
  obtain ⟨i, hi, rfl⟩ := Array.mem_iff_getElem.1 hp
  rw [← Bool.not_eq_true, (hfits i hi).contains_iff (by decide)]
  rw [hsize] at hi
  exact fun h => absurd (h ▸ hi) (by decide)

end Memory

end Hart
