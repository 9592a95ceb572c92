import Hart.Memory.Basic
import Mathlib

namespace Hart

theorem Width.combine_lt (w : Width) (b : Nat → Byte) : (w.combine b).toNat < 2 ^ w.bits := by
  cases w with
  | byte =>
    rw [combine, BitVec.toNat_setWidth_of_le (by decide)]
    exact (b 0).isLt
  | half =>
    rw [combine, BitVec.toNat_setWidth_of_le (by decide)]
    exact (b 1 ++ b 0).isLt
  | word => exact (b 3 ++ b 2 ++ b 1 ++ b 0).isLt

theorem ByteStore.read_lt (s : ByteStore) (w : Width) (offset : Nat) :
    (s.read w offset).toNat < 2 ^ w.bits := by
  rw [read]
  split
  · exact w.combine_lt _
  · exact Nat.two_pow_pos _

theorem Storage.peek_lt {s : Storage} {w : Width} {offset : Nat} {a v : Word}
    (h : s.peek w offset a = .ok v) : v.toNat < 2 ^ w.bits := by
  cases s with
  | ram bytes =>
    cases h
    exact bytes.read_lt w offset
  | image bytes =>
    cases h
    exact bytes.read_lt w offset
  | zero =>
    cases h
    exact Nat.two_pow_pos _
  | guard => cases h

theorem Memory.peek_lt {m : Memory} {w : Width} {a v : Word} (h : m.peek w a = .ok v) :
    v.toNat < 2 ^ w.bits := by
  rw [Memory.peek] at h
  split at h
  · rw [Page.peek] at h
    split at h
    · exact Storage.peek_lt h
    · cases h
  · cases h

def Width.low (w : Width) (v : Word) : Word := BitVec.ofNat 32 (v.toNat % 2 ^ w.bits)

theorem Width.low_word (v : Word) : Width.word.low v = v := by
  have h : v.toNat % 2 ^ Width.word.bits = v.toNat := Nat.mod_eq_of_lt v.isLt
  rw [low, h, BitVec.ofNat_toNat, BitVec.setWidth_eq]

end Hart
