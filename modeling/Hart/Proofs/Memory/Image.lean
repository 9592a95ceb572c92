import Hart.Proofs.Memory.Insertion
import Hart.Proofs.Memory.Store
import Mathlib

namespace Hart.Memory

def imageStorage (m : Memory) (bytes : Array Byte) (writable : Bool) (i : Nat) : Storage :=
  if writable then .ram (m.chunk bytes i) else .image (m.chunk bytes i)

variable {m m' : Memory} {bytes : Array Byte} {writable : Bool} {w : Width} {a : Word} {i j : Nat}

theorem insertImage_eq (m : Memory) (bytes : Array Byte) (writable : Bool) :
    m.insertImage bytes writable =
      insertFrom (m.imageStorage bytes writable) 0 (m.pagesFor bytes.size) m := rfl

theorem size_chunk (m : Memory) (bytes : Array Byte) (i : Nat) :
    (m.chunk bytes i).size = min m.pageSize (bytes.size - i * m.pageSize) := by
  rw [chunk, ByteStore.size_ofArray, Array.size_extract, Nat.succ_mul]
  omega

theorem get_chunk (h : j < m.pageSize) :
    (m.chunk bytes i).get j = bytes[i * m.pageSize + j]?.getD 0 := by
  rw [chunk, ByteStore.get_ofArray, Array.getElem?_extract, Nat.succ_mul]
  split
  · rfl
  · next hj => rw [Array.getElem?_eq_none (by omega)]

theorem length_imageStorage_le (m : Memory) (bytes : Array Byte) (writable : Bool) (i : Nat) :
    (m.imageStorage bytes writable i).length ≤ m.pageSize := by
  have h : (m.imageStorage bytes writable i).length = (m.chunk bytes i).size := by
    cases writable <;> rfl
  rw [h, size_chunk]
  exact Nat.min_le_left _ _

theorem peek_imageStorage (m : Memory) (bytes : Array Byte) (writable : Bool) (i : Nat) (w : Width)
    (offset : Nat) (a : Word) :
    (m.imageStorage bytes writable i).peek w offset a = .ok ((m.chunk bytes i).read w offset) := by
  cases writable <;> rfl

theorem size_le_pagesFor (m : Memory) (n : Nat) : n ≤ m.pagesFor n * m.pageSize := by
  have hp := m.pageSize_pos
  have hdiv := Nat.div_add_mod (n + m.pageSize - 1) m.pageSize
  have hmod := Nat.mod_lt (n + m.pageSize - 1) hp
  calc n
    _ ≤ m.pageSize * ((n + m.pageSize - 1) / m.pageSize) := by omega
    _ ≤ m.pagesFor n * m.pageSize := by
      rw [Nat.mul_comm]
      exact Nat.mul_le_mul_right _ (Nat.le_max_right _ _)

theorem WellFormed.insertImage_of_fits (hm : m.WellFormed)
    (h : (m.pages.size + m.pagesFor bytes.size) * m.pageSize ≤ addressSpace) :
    ∃ m', m.insertImage bytes writable = ⟨m', none⟩ ∧
      m.Extends ((List.range (m.pagesFor bytes.size)).map (m.imageStorage bytes writable)) m' := by
  rw [insertImage_eq, List.range_eq_range']
  exact hm.insertFrom_of_fits (m.length_imageStorage_le bytes writable) h

theorem WellFormed.extends_of_insertImage (hm : m.WellFormed)
    (h : m.insertImage bytes writable = ⟨m', none⟩) :
    m.Extends ((List.range (m.pagesFor bytes.size)).map (m.imageStorage bytes writable)) m' := by
  by_cases hroom : (m.pages.size + m.pagesFor bytes.size) * m.pageSize ≤ addressSpace
  · obtain ⟨m₁, hins, he⟩ := hm.insertImage_of_fits hroom
    rw [hins] at h
    cases h
    exact he
  · have hnone := hm.insertFrom_of_exhausted (i := 0) (m.length_imageStorage_le bytes writable)
      (Nat.lt_of_not_le hroom)
    rw [← insertImage_eq, h] at hnone
    cases hnone

theorem read_chunk (m : Memory) (bytes : Array Byte) (w : Width) (i : Nat) :
    (m.chunk bytes (i / m.pageSize)).read w (i % m.pageSize) =
      if i % m.pageSize + w.bytes ≤ m.pageSize ∧ i + w.bytes ≤ bytes.size then
        w.combine fun j => bytes[i + j]?.getD 0
      else 0 := by
  have hi := Nat.div_add_mod' i m.pageSize
  have hw : 0 < w.bytes := by cases w <;> decide
  rw [ByteStore.read, size_chunk]
  by_cases h : i % m.pageSize + w.bytes ≤ m.pageSize ∧ i + w.bytes ≤ bytes.size
  · rw [if_pos h, if_pos (by omega)]
    refine Width.combine_congr fun j hj => ?_
    rw [get_chunk (by omega), ← Nat.add_assoc, hi]
  · rw [if_neg h, if_neg (by omega)]

theorem WellFormed.stop_insertImage (hm : m.WellFormed)
    (h : m.insertImage bytes writable = ⟨m', none⟩) :
    m'.stop = m.stop + m.pagesFor bytes.size * m.pageSize := by
  have he := hm.extends_of_insertImage h
  rw [he.wellFormed.stop_eq, he.size, he.pageSize, hm.stop_eq, List.length_map, List.length_range,
    Nat.add_mul]

theorem WellFormed.peek_insertImage (hm : m.WellFormed) (h : m.insertImage bytes writable = ⟨m', none⟩)
    (hi : m.stop + i < m'.stop) (ha : a.toNat = m.stop + i) (w : Width) :
    m'.peek w a = .ok (if i % m.pageSize + w.bytes ≤ m.pageSize ∧ i + w.bytes ≤ bytes.size then
      w.combine fun j => bytes[i + j]?.getD 0 else 0) := by
  have he := hm.extends_of_insertImage h
  rw [hm.stop_insertImage h, Nat.add_lt_add_iff_left] at hi
  have hplace : i / m.pageSize < m.pagesFor bytes.size := by
    rwa [Nat.div_lt_iff_lt_mul m.pageSize_pos]
  rw [he.peek_behind hm ha (s := m.imageStorage bytes writable (i / m.pageSize)) _ w,
    peek_imageStorage, read_chunk]
  rw [List.getElem?_map, List.getElem?_range hplace]
  rfl

end Hart.Memory
