import Hart.Proofs.Memory.Image
import Hart.Proofs.Memory.Reads
import Mathlib

namespace Hart

theorem Page.Fits.ext {p q : Page} {n i : Nat} (hp : p.Fits n i) (hq : q.Fits n i)
    (hs : p.storage = q.storage) : p = q := by
  obtain ⟨start, stop, rights, storage⟩ := p
  obtain ⟨start', stop', rights', storage'⟩ := q
  cases hs
  cases hp.start.trans hq.start.symm
  cases hp.stop.trans hq.stop.symm
  cases hp.rights.trans hq.rights.symm
  rfl

namespace Memory

/-- The first `k` pages of a blob stand in `m'` behind the pages of `m`: RAM or images, each backed by
the bytes of the blob in its place. -/
structure Places (m : Memory) (bytes : Array Byte) (writable : Bool) (k : Nat) (m' : Memory) : Prop where
  pageSize : m'.pageSize = m.pageSize
  size : m'.pages.size = m.pages.size + k
  earlier : ∀ i < m.pages.size, m'.pages[i]? = m.pages[i]?
  page : ∀ i < k, ∃ p store, m'.pages[m.pages.size + i]? = some p ∧
    p.Fits m.pageSize (m.pages.size + i) ∧
    p.storage = (if writable then .ram store else .image store) ∧
    store.size = min m.pageSize (bytes.size - i * m.pageSize) ∧
    ∀ j < store.size, bytes[i * m.pageSize + j]? = some (store.get j)

variable {m m' : Memory} {ss : List Storage} {bytes : Array Byte} {writable : Bool} {s : Storage}
  {a : Word} {i k n : Nat}

theorem getElem?_storages (m : Memory) (i : Nat) : m.storages[i]? = m.pages[i]?.map Page.storage := by
  rw [storages, List.getElem?_map, Array.getElem?_toList]

theorem Extends.getElem?_earlier (he : m.Extends ss m') (hm : m.WellFormed) (hi : i < m.pages.size) :
    m'.pages[i]? = m.pages[i]? := by
  have hi' : i < m'.pages.size := by
    rw [he.size]
    omega
  have hs : m'.storages[i]? = m.storages[i]? := by
    rw [he.storages, List.getElem?_append_left (by rwa [length_storages])]
  rw [getElem?_storages, getElem?_storages, Array.getElem?_eq_getElem hi, Array.getElem?_eq_getElem hi',
    Option.map_some, Option.map_some, Option.some.injEq] at hs
  have hfit := he.wellFormed.page i hi'
  rw [he.pageSize] at hfit
  rw [Array.getElem?_eq_getElem hi, Array.getElem?_eq_getElem hi', hfit.ext (hm.page i hi) hs]

theorem Extends.exists_added (he : m.Extends ss m') (hs : ss[i]? = some s) :
    ∃ p, m'.pages[m.pages.size + i]? = some p ∧ p.Fits m.pageSize (m.pages.size + i) ∧ p.storage = s := by
  have hi : m'.storages[m.pages.size + i]? = some s := by
    rw [he.storages, ← length_storages, List.getElem?_append_right (Nat.le_add_right _ _),
      Nat.add_sub_cancel_left, hs]
  rw [getElem?_storages, Option.map_eq_some_iff] at hi
  obtain ⟨p, hp, rfl⟩ := hi
  obtain ⟨hlt, rfl⟩ := Array.getElem?_eq_some_iff.1 hp
  exact ⟨_, hp, he.pageSize ▸ he.wellFormed.page _ hlt, rfl⟩

theorem Extends.places (hm : m.WellFormed)
    (he : m.Extends ((List.range k).map (m.imageStorage bytes writable)) m') :
    m.Places bytes writable k m' where
  pageSize := he.pageSize
  size := by rw [he.size, List.length_map, List.length_range]
  earlier _ hi := he.getElem?_earlier hm hi
  page i hi := by
    have hs : ((List.range k).map (m.imageStorage bytes writable))[i]? =
        some (m.imageStorage bytes writable i) := by
      rw [List.getElem?_map, List.getElem?_range hi, Option.map_some]
    obtain ⟨p, hp, hfits, hstorage⟩ := he.exists_added hs
    refine ⟨p, m.chunk bytes i, hp, hfits, hstorage, size_chunk m bytes i, fun j hj => ?_⟩
    rw [size_chunk] at hj
    rw [get_chunk (by omega), Array.getElem?_eq_getElem (by omega), Option.getD_some]

theorem pagesFor_eq (m : Memory) (n : Nat) : m.pagesFor n = max 1 (n ⌈/⌉ m.pageSize) := by
  rw [pagesFor, Nat.ceilDiv_eq_add_pred_div]

theorem mul_le_of_lt_pagesFor (h : k < m.pagesFor n) : k * m.pageSize ≤ n := by
  rw [pagesFor_eq, lt_max_iff] at h
  rcases h with hk | hk
  · obtain rfl : k = 0 := by omega
    rw [Nat.zero_mul]
    exact Nat.zero_le n
  · rw [← not_le, ceilDiv_le_iff_le_mul m.pageSize_pos, Nat.mul_comm] at hk
    exact (Nat.lt_of_not_le hk).le

theorem WellFormed.places_of_exhausted (hm : m.WellFormed)
    (h : addressSpace < (m.pages.size + m.pagesFor bytes.size) * m.pageSize) :
    ∃ m' k, m.insertImage bytes writable = ⟨m', some .addressSpaceExhausted⟩ ∧
      m.pages.size + k = addressSpace / m.pageSize ∧ k * m.pageSize ≤ bytes.size ∧
      m.Places bytes writable k m' := by
  obtain ⟨m', hm', he⟩ := hm.extends_of_exhausted (i := 0) (m.length_imageStorage_le bytes writable) h
  rw [← List.range_eq_range'] at he
  have hfits := (Nat.le_div_iff_mul_le m.pageSize_pos).2 hm.fits
  have hlt : addressSpace / m.pageSize < m.pages.size + m.pagesFor bytes.size :=
    (Nat.div_lt_iff_lt_mul m.pageSize_pos).2 h
  exact ⟨m', _, hm', Nat.add_sub_of_le hfits, mul_le_of_lt_pagesFor (by omega), he.places hm⟩

theorem WellFormed.readBytes_insertImage (hm : m.WellFormed)
    (h : m.insertImage bytes writable = ⟨m', none⟩) (ha : a.toNat = m.stop) :
    m'.readBytes a bytes.size = .ok bytes := by
  rw [readBytes_eq_ok_iff]
  refine ⟨rfl, fun i hi => ?_⟩
  have hroom := m.size_le_pagesFor bytes.size
  have hstop := hm.stop_insertImage h
  have hm' := (hm.extends_of_insertImage h).wellFormed
  have htop : m'.stop ≤ 2 ^ 32 := hm'.stop_eq.trans_le hm'.fits
  have hlt : a.toNat + i < 2 ^ 32 := by omega
  have hmod := Nat.mod_lt i m.pageSize_pos
  rw [byteAbove_eq_ok_iff]
  refine ⟨hlt, ?_⟩
  rw [hm.peek_insertImage h (i := i) (by omega) (by rw [toNat_add_ofNat hlt, ha]), if_pos ⟨hmod, hi⟩]
  simp [Width.combine, hi]

theorem WellFormed.peek_behind_image (hm : m.WellFormed)
    (h : m.insertImage bytes writable = ⟨m', none⟩) (ha : m.stop + bytes.size ≤ a.toNat)
    (hstop : a.toNat < m'.stop) (w : Width) : m'.peek w a = .ok 0 := by
  have hw : 0 < w.bytes := by cases w <;> decide
  have hoffset : a.toNat = m.stop + (a.toNat - m.stop) := by omega
  rw [hm.peek_insertImage h (by omega) hoffset, if_neg (by omega)]

theorem WellFormed.places_of_fits (hm : m.WellFormed)
    (h : (m.pages.size + m.pagesFor bytes.size) * m.pageSize ≤ addressSpace) :
    ∃ m', m.insertImage bytes writable = ⟨m', none⟩ ∧
      m'.stop = m.stop + m.pagesFor bytes.size * m.pageSize ∧
      m.Places bytes writable (m.pagesFor bytes.size) m' ∧
      ∃ a : Word, a.toNat = m.stop ∧ m'.readBytes a bytes.size = .ok bytes := by
  obtain ⟨m', hm', he⟩ := hm.insertImage_of_fits h
  have hstop := hm.stop_insertImage hm'
  have htop : m'.stop ≤ 2 ^ 32 := he.wellFormed.stop_eq.trans_le he.wellFormed.fits
  have hone : 0 < m.pagesFor bytes.size * m.pageSize :=
    Nat.mul_pos (Nat.le_max_left ..) m.pageSize_pos
  have ha : (BitVec.ofNat 32 m.stop).toNat = m.stop := by
    rw [BitVec.toNat_ofNat, Nat.mod_eq_of_lt (by omega)]
  exact ⟨m', hm', hstop, he.places hm, _, ha, hm.readBytes_insertImage hm' ha⟩

/-- A blob of `c` pages is put behind a memory exactly when the address space has room for them. Its bytes
are read back from there, what follows them on its last page is zero, and the pages before it stay as they
are. Without that room the insertion fails, and the address space is filled up with full pages of the
blob. -/
theorem insertImage_places {n : Nat} (h : 0 < n) (ops : List Operation) (bytes : Array Byte)
    (writable : Bool) :
    let m := (empty n h).after ops
    let c := max 1 (bytes.size ⌈/⌉ n)
    let r := m.insertImage bytes writable
    ((m.pages.size + c) * n ≤ 2 ^ 32 →
      m.addedRange r = .ok (m.stop, m.stop + c * n) ∧ m.Places bytes writable c r.memory ∧
      (∃ a : Word, a.toNat = m.stop ∧ r.memory.readBytes a bytes.size = .ok bytes) ∧
      ∀ (a : Word) (w : Width), m.stop + bytes.size ≤ a.toNat → a.toNat < m.stop + c * n →
        r.memory.peek w a = .ok 0) ∧
    (2 ^ 32 < (m.pages.size + c) * n →
      m.addedRange r = .error .addressSpaceExhausted ∧
      ∃ k, m.pages.size + k = 2 ^ 32 / n ∧ k * n ≤ bytes.size ∧
        m.Places bytes writable k r.memory) := by
  intro m c r
  obtain ⟨hm, hn⟩ : m.WellFormed ∧ m.pageSize = n := (wellFormed_empty n h).after ops
  have hc : c = m.pagesFor bytes.size := by rw [pagesFor_eq, hn]
  have hr : m.insertImage bytes writable = r := rfl
  clear_value m c r
  subst hn hc
  constructor
  · intro hroom
    obtain ⟨m', hm', hstop, hplaces, hread⟩ := hm.places_of_fits hroom
    cases hr.symm.trans hm'
    refine ⟨by rw [addedRange, hstop], hplaces, hread, fun a w ha hlt => ?_⟩
    exact hm.peek_behind_image hm' ha (hstop ▸ hlt) w
  · intro hroom
    obtain ⟨m', k, hm', hk⟩ := hm.places_of_exhausted hroom
    cases hr.symm.trans hm'
    exact ⟨rfl, k, hk⟩

theorem insertImage_places_two_pages :
    let m := (empty 4 (by decide)).after [.insert .zero]
    let r := m.insertImage #[1, 2, 3, 4, 5, 6] false
    let large := (empty 0x60000000 (by decide)).after [.insert .zero]
    let blob := Array.replicate (2 ^ 32) 7
    (0 < 4 ∧ (m.pages.size + 2) * 4 ≤ 2 ^ 32 ∧ m.addedRange r = .ok (4, 12) ∧
      m.Places #[1, 2, 3, 4, 5, 6] false 2 r.memory ∧
      (∃ a : Word, a.toNat = 4 ∧ r.memory.readBytes a 6 = .ok #[1, 2, 3, 4, 5, 6]) ∧
      r.memory.peek .half 10 = .ok 0) ∧
    large.addedRange (large.insertImage blob true) = .error .addressSpaceExhausted ∧
      large.Places blob true 1 (large.insertImage blob true).memory := by
  intro m r large blob
  have hsize : large.pages.size = 1 := by rfl
  have hblob : blob.size = 2 ^ 32 := Array.size_replicate
  obtain ⟨hfits, _⟩ := insertImage_places (n := 4) (by decide) [.insert .zero] #[1, 2, 3, 4, 5, 6] false
  obtain ⟨_, hfull⟩ := insertImage_places (n := 0x60000000) (by decide) [.insert .zero] blob true
  obtain ⟨hrange, hplaces, hread, hzero⟩ := hfits (by decide)
  obtain ⟨herror, k, hk, _, hfirst⟩ := hfull (by rw [hblob]; decide)
  obtain rfl : k = 1 := by
    change large.pages.size + k = _ at hk
    rw [hsize] at hk
    omega
  exact ⟨⟨by decide, by decide, hrange, hplaces, hread, hzero 10 .half (by decide) (by decide)⟩, herror,
    hfirst⟩

end Memory

end Hart
