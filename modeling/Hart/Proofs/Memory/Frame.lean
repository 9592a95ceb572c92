import Hart.Proofs.Memory.Store
import Mathlib

namespace Hart

def Width.Apart (w u : Width) (a b : Nat) : Prop := a + w.bytes ≤ b ∨ b + u.bytes ≤ a

theorem ByteStore.read_write?_of_apart {s t : ByteStore} {w u : Width} {i j : Nat} {v : Word}
    (h : s.write? w i v = some t) (hd : w.Apart u i j) : t.read u j = s.read u j := by
  have hget : ∀ k < u.bytes, t.get (j + k) = s.get (j + k) := by
    intro k hk
    rcases hd with hd | hd
    · rw [get_write? h, if_neg (by omega)]
    · rw [get_write? h, if_neg (by omega)]
  rw [read, read, size_write? h, Width.combine_congr hget]

namespace Storage

variable {s t : Storage} {w u : Width} {i j : Nat} {a b v : Word}

theorem peek_poke (h : s.poke w i a v = .ok t) (b : Word) :
    (∃ bytes, s = .ram bytes ∧ t.peek w i b = .ok (w.low v)) ∨ (s = .zero ∧ t.peek w i b = .ok 0) := by
  cases s with
  | ram bytes =>
    rw [poke] at h
    split at h
    · next hw =>
      cases h
      exact .inl ⟨bytes, rfl, congrArg Except.ok (ByteStore.read_write? hw)⟩
    · cases h
  | image bytes => cases h
  | zero =>
    cases h
    exact .inr ⟨rfl, rfl⟩
  | guard => cases h

theorem peek_poke_of_apart (h : s.poke w i a v = .ok t) (hd : w.Apart u i j) (b : Word) :
    t.peek u j b = s.peek u j b := by
  cases s with
  | ram bytes =>
    rw [poke] at h
    split at h
    · next hw =>
      cases h
      exact congrArg Except.ok (ByteStore.read_write?_of_apart hw hd)
    · cases h
  | image bytes => cases h
  | zero =>
    cases h
    rfl
  | guard => cases h

end Storage

namespace Page

variable {p q : Page} {w u : Width} {a b v : Word}

theorem peek_poke (h : p.poke w a v = .ok q) :
    (∃ bytes, p.storage = .ram bytes ∧ q.peek w a = .ok (w.low v)) ∨
      (p.storage = .zero ∧ q.peek w a = .ok 0) := by
  obtain ⟨hc, s, hs, rfl⟩ := poke_eq_ok_iff.1 h
  have hpeek : ({ p with storage := s } : Page).peek w a = s.peek w (a.toNat - p.start) a := if_pos hc
  rw [hpeek]
  exact Storage.peek_poke hs a

theorem peek_poke_of_apart (h : p.poke w a v = .ok q) (hd : w.Apart u a.toNat b.toNat) :
    q.peek u b = p.peek u b := by
  obtain ⟨hc, s, hs, rfl⟩ := poke_eq_ok_iff.1 h
  rw [peek, peek]
  by_cases hb : p.contains b = true
  · have hd' : w.Apart u (a.toNat - p.start) (b.toNat - p.start) := by
      rw [contains, Bool.and_eq_true, decide_eq_true_eq, decide_eq_true_eq] at hc hb
      unfold Width.Apart at hd ⊢
      omega
    rw [if_pos hb]
    exact (if_pos hb).trans (Storage.peek_poke_of_apart hs hd' b)
  · rw [if_neg hb]
    exact if_neg hb

end Page

namespace Memory

variable {m m' : Memory} {w u : Width} {a b v : Word}

theorem exists_poke (h : m.poke w a v = .ok m') : ∃ p q, m.pageAt? a = some p ∧ p.poke w a v = .ok q ∧
    ∀ b, m'.pageAt? b = if a.toNat / m.pageSize = b.toNat / m.pageSize then some q else m.pageAt? b := by
  obtain ⟨hi, q, hq, rfl⟩ := poke_eq_ok_iff.1 h
  refine ⟨_, q, Array.getElem?_eq_getElem hi, hq, fun b => ?_⟩
  rw [pageAt?, Array.getElem?_set]
  rfl

theorem peek_poke (h : m.poke w a v = .ok m') : ∃ p, m.pageAt? a = some p ∧
    ((∃ bytes, p.storage = .ram bytes ∧ m'.peek w a = .ok (w.low v)) ∨
      (p.storage = .zero ∧ m'.peek w a = .ok 0)) := by
  obtain ⟨p, q, hp, hq, hpages⟩ := exists_poke h
  have hpeek : m'.peek w a = q.peek w a := by
    rw [peek, hpages, if_pos rfl]
  rw [hpeek]
  exact ⟨p, hp, Page.peek_poke hq⟩

theorem peek_poke_of_apart (h : m.poke w a v = .ok m') (hd : w.Apart u a.toNat b.toNat) :
    m'.peek u b = m.peek u b := by
  obtain ⟨p, q, hp, hq, hpages⟩ := exists_poke h
  rw [peek, hpages, peek]
  by_cases hplace : a.toNat / m.pageSize = b.toNat / m.pageSize
  · have hb : m.pageAt? b = some p := by rw [pageAt?, ← hplace]; exact hp
    rw [if_pos hplace, hb]
    exact Page.peek_poke_of_apart hq hd
  · rw [if_neg hplace]

end Memory

end Hart
