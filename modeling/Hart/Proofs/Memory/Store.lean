import Hart.Proofs.Memory.Layout
import Hart.Proofs.Memory.Values
import Mathlib

namespace Hart

namespace Width

theorem combine_congr {w : Width} {b c : Nat → Byte} (h : ∀ i < w.bytes, b i = c i) :
    w.combine b = w.combine c := by
  cases w with
  | byte => simp only [combine, h 0 (by decide)]
  | half => simp only [combine, h 0 (by decide), h 1 (by decide)]
  | word =>
    simp only [combine, h 0 (by decide), h 1 (by decide), h 2 (by decide), h 3 (by decide)]

theorem getLsbD_low (w : Width) (v : Word) {i : Nat} (hi : i < 32) :
    (w.low v).getLsbD i = (decide (i < w.bits) && v.getLsbD i) := by
  simp only [low, BitVec.getLsbD_ofNat, Nat.testBit_mod_two_pow, hi, decide_true, Bool.true_and]
  rfl

theorem combine_byte (w : Width) (v : Word) : w.combine v.byte = w.low v := by
  apply BitVec.eq_of_getLsbD_eq
  intro i hi
  rw [getLsbD_low w v hi]
  cases w <;> simp only [combine, bits, bytes, Word.byte, BitVec.getLsbD_append,
    BitVec.getLsbD_setWidth, BitVec.getLsbD_extractLsb'] <;> grind

end Width

theorem Word.setWidth_byte (v : Word) (i : Nat) :
    (v.byte i).setWidth 32 = BitVec.ofNat 32 (v.toNat / 2 ^ (8 * i) % 2 ^ 8) := by
  rw [← BitVec.toNat_inj, BitVec.toNat_setWidth_of_le (by decide), Word.byte,
    BitVec.extractLsb'_toNat, BitVec.toNat_ofNat, Nat.shiftRight_eq_div_pow]
  omega

namespace ByteStore

variable {s t : ByteStore} {w : Width} {offset : Nat} {v : Word}

theorem get_foldl_set (s : ByteStore) (offset : Nat) (b : Nat → Byte) (n j : Nat) :
    ((List.range n).foldl (fun t i => t.set (offset + i) (b i)) s).get j =
      if offset ≤ j ∧ j < offset + n then b (j - offset) else s.get j := by
  induction n with
  | zero => rw [if_neg (by omega)]; rfl
  | succ n ih =>
    rw [List.range_succ, List.foldl_append, List.foldl_cons, List.foldl_nil, get_set, ih]
    by_cases h : offset + n = j
    · rw [if_pos h, if_pos (by omega), ← h, Nat.add_sub_cancel_left]
    · rw [if_neg h]
      exact if_congr (by omega) rfl rfl

theorem write?_eq_none_iff : s.write? w offset v = none ↔ s.size < offset + w.bytes := by
  rw [write?]
  split <;> simp <;> omega

theorem fits_of_write? (h : s.write? w offset v = some t) : offset + w.bytes ≤ s.size := by
  by_contra hn
  rw [write?_eq_none_iff.2 (by omega)] at h
  cases h

theorem get_write? (h : s.write? w offset v = some t) (j : Nat) : t.get j =
    if offset ≤ j ∧ j < offset + w.bytes then v.byte (j - offset) else s.get j := by
  rw [write?, if_pos (fits_of_write? h)] at h
  cases h
  exact get_foldl_set s offset v.byte w.bytes j

theorem read_byte (s : ByteStore) (j : Nat) :
    s.read .byte j = if j < s.size then (s.get j).setWidth 32 else 0 := rfl

theorem read_byte_write? (h : s.write? w offset v = some t) (j : Nat) : t.read .byte j =
    if offset ≤ j ∧ j < offset + w.bytes then (v.byte (j - offset)).setWidth 32
    else s.read .byte j := by
  have hle := fits_of_write? h
  rw [read_byte, read_byte, size_write? h, get_write? h]
  by_cases hj : offset ≤ j ∧ j < offset + w.bytes
  · rw [if_pos (by omega), if_pos hj, if_pos hj]
  · rw [if_neg hj, if_neg hj]

theorem read_write? (h : s.write? w offset v = some t) : t.read w offset = w.low v := by
  rw [read, if_pos ((fits_of_write? h).trans_eq (size_write? h).symm), ← w.combine_byte]
  apply Width.combine_congr
  intro i hi
  rw [get_write? h, if_pos (by omega), Nat.add_sub_cancel_left]

end ByteStore

namespace Memory

def PageOf (m : Memory) (a : Word) (p : Page) : Prop := p ∈ m.pages ∧ p.contains a = true

inductive Refused (m : Memory) (w : Width) (a : Word) : MemoryError → Prop
  | outOfRange : (∀ p, ¬ m.PageOf a p) → Refused m w a (.outOfRange a)
  | readOnly : m.PageOf a p → p.storage = .image bytes → Refused m w a (.readOnly a)
  | guardPage : m.PageOf a p → p.storage = .guard → Refused m w a (.guardPage a .write)
  | pageBoundary : m.PageOf a p → p.storage = .ram bytes →
      bytes.size < a.toNat - p.start + w.bytes → Refused m w a (.pageBoundary a w)

def Discards (m : Memory) (a : Word) : Prop := ∃ p, m.PageOf a p ∧ p.storage = .zero

/-- The address is in a RAM page that backs the whole access. -/
def Backs (m : Memory) (w : Width) (a : Word) : Prop :=
  ∃ p bytes, m.PageOf a p ∧ p.storage = .ram bytes ∧ a.toNat - p.start + w.bytes ≤ bytes.size

def replace (m : Memory) (a : Word) (q : Page) : Memory :=
  { m with pages := m.pages.setIfInBounds (a.toNat / m.pageSize) q }

variable {m m' : Memory} {w : Width} {a v : Word} {p : Page} {e : MemoryError}

theorem WellFormed.pageOf_iff (hm : m.WellFormed) : m.PageOf a p ↔ m.pageAt? a = some p :=
  hm.pageAt?_eq_some_iff.symm

theorem pageAt?_replace {q : Page} (hp : m.pageAt? a = some p) (b : Word) :
    (m.replace a q).pageAt? b =
      if a.toNat / m.pageSize = b.toNat / m.pageSize then some q else m.pageAt? b := by
  obtain ⟨hi, _⟩ := Array.getElem?_eq_some_iff.1 hp
  simp only [pageAt?, replace, Array.getElem?_setIfInBounds, if_pos hi]

theorem replace_self (hp : m.pageAt? a = some p) : m.replace a p = m := by
  obtain ⟨hi, rfl⟩ := Array.getElem?_eq_some_iff.1 hp
  have hset : m.pages.setIfInBounds (a.toNat / m.pageSize) m.pages[a.toNat / m.pageSize] = m.pages := by
    rw [Array.setIfInBounds, dif_pos hi, Array.set_getElem_self]
  exact congrArg (fun pages => { m with pages }) hset

theorem poke_of_none (h : m.pageAt? a = none) : m.poke w a v = .error (.outOfRange a) := by
  have hi : ¬ a.toNat / m.pageSize < m.pages.size := by
    rw [pageAt?, Array.getElem?_eq_none_iff] at h
    exact Nat.not_lt.2 h
  rw [poke, dif_neg hi]

theorem WellFormed.poke_of_some (hm : m.WellFormed) (h : m.pageAt? a = some p) :
    m.poke w a v = match p.storage.poke w (a.toNat - p.start) a v with
      | .ok s => .ok (m.replace a { p with storage := s })
      | .error e => .error e := by
  have hc := (hm.pageAt?_eq_some_iff.1 h).2
  obtain ⟨hi, rfl⟩ := Array.getElem?_eq_some_iff.1 h
  rw [Memory.poke, dif_pos hi, Page.poke, if_pos hc]
  cases (m.pages[a.toNat / m.pageSize]).storage.poke w _ a v with
  | ok s => simp only [replace, Array.setIfInBounds, dif_pos hi]
  | error e => rfl

theorem WellFormed.refused_or (hm : m.WellFormed) (w : Width) (a : Word) :
    (∃ e, m.Refused w a e) ∨ m.Discards a ∨ m.Backs w a := by
  cases hp : m.pageAt? a with
  | none =>
    refine .inl ⟨_, .outOfRange fun p hpage => ?_⟩
    rw [hm.pageOf_iff, hp] at hpage
    cases hpage
  | some p =>
    have hpage := hm.pageOf_iff.2 hp
    cases hs : p.storage with
    | ram bytes =>
      by_cases hlt : bytes.size < a.toNat - p.start + w.bytes
      · exact .inl ⟨_, .pageBoundary hpage hs hlt⟩
      · exact .inr (.inr ⟨p, bytes, hpage, hs, Nat.le_of_not_lt hlt⟩)
    | image bytes => exact .inl ⟨_, .readOnly hpage hs⟩
    | zero => exact .inr (.inl ⟨p, hpage, hs⟩)
    | guard => exact .inl ⟨_, .guardPage hpage hs⟩

theorem WellFormed.poke_of_refused (hm : m.WellFormed) (h : m.Refused w a e) :
    m.poke w a v = .error e := by
  cases h with
  | outOfRange hn =>
    apply poke_of_none
    rw [Option.eq_none_iff_forall_ne_some]
    exact fun p hp => hn p (hm.pageOf_iff.2 hp)
  | readOnly hpage hs => rw [hm.poke_of_some (hm.pageOf_iff.1 hpage), hs]; rfl
  | guardPage hpage hs => rw [hm.poke_of_some (hm.pageOf_iff.1 hpage), hs]; rfl
  | pageBoundary hpage hs hlt =>
    rw [hm.poke_of_some (hm.pageOf_iff.1 hpage), hs, Storage.poke, ByteStore.write?_eq_none_iff.2 hlt]

theorem WellFormed.poke_of_discards (hm : m.WellFormed) (h : m.Discards a) :
    m.poke w a v = .ok m := by
  obtain ⟨p, hpage, hs⟩ := h
  have hp := hm.pageOf_iff.1 hpage
  have hpoke : p.storage.poke w (a.toNat - p.start) a v = .ok p.storage := by
    rw [hs]
    rfl
  rw [hm.poke_of_some hp, hpoke]
  exact congrArg Except.ok (replace_self hp)

theorem WellFormed.poke_of_backs (hm : m.WellFormed) (h : m.Backs w a) :
    ∃ p bytes t, m.pageAt? a = some p ∧ p.storage = .ram bytes ∧
      bytes.write? w (a.toNat - p.start) v = some t ∧
      m.poke w a v = .ok (m.replace a { p with storage := .ram t }) := by
  obtain ⟨p, bytes, hpage, hs, hle⟩ := h
  have hp := hm.pageOf_iff.1 hpage
  cases hw : bytes.write? w (a.toNat - p.start) v with
  | none => exact absurd (ByteStore.write?_eq_none_iff.1 hw) (by omega)
  | some t =>
    refine ⟨p, bytes, t, hp, hs, hw, ?_⟩
    rw [hm.poke_of_some hp, hs, Storage.poke, hw]

theorem WellFormed.poke_eq_error_iff (hm : m.WellFormed) :
    m.poke w a v = .error e ↔ m.Refused w a e := by
  refine ⟨fun h => ?_, hm.poke_of_refused⟩
  rcases hm.refused_or w a with ⟨e', hr⟩ | hd | hb
  · rw [hm.poke_of_refused hr] at h
    cases h
    exact hr
  · rw [hm.poke_of_discards hd] at h
    cases h
  · obtain ⟨_, _, _, _, _, _, hok⟩ := hm.poke_of_backs (v := v) hb
    rw [hok] at h
    cases h

theorem WellFormed.exists_poke_iff (hm : m.WellFormed) :
    (∃ m', m.poke w a v = .ok m') ↔ m.Discards a ∨ m.Backs w a := by
  constructor
  · rintro ⟨m', h⟩
    refine (hm.refused_or w a).resolve_left ?_
    rintro ⟨e, hr⟩
    rw [hm.poke_of_refused hr] at h
    cases h
  · rintro (h | h)
    · exact ⟨m, hm.poke_of_discards h⟩
    · obtain ⟨_, _, _, _, _, _, h⟩ := hm.poke_of_backs h
      exact ⟨_, h⟩

/-- The low bytes of `v` stand at `a`, inside one page, and everything else is as it was. -/
structure Written (m : Memory) (w : Width) (a v : Word) (m' : Memory) : Prop where
  inPage : ∃ p, ∀ i < w.bytes, a.toNat + i < 2 ^ 32 ∧ m.PageOf (a + BitVec.ofNat 32 i) p
  byte : ∀ i < w.bytes, m'.peek .byte (a + BitVec.ofNat 32 i) =
    .ok (BitVec.ofNat 32 (v.toNat / 2 ^ (8 * i) % 2 ^ 8))
  other : ∀ b : Word, b.toNat < a.toNat ∨ a.toNat + w.bytes ≤ b.toNat →
    m'.peek .byte b = m.peek .byte b
  value : m'.peek w a = .ok (BitVec.ofNat 32 (v.toNat % 2 ^ (8 * w.bytes)))
  pages : m'.pageSize = m.pageSize ∧ m'.pages.size = m.pages.size
  neighbours : ∀ i (hi : i < m.pages.size), (m.pages[i]).contains a = false →
    m'.pages[i]? = some m.pages[i]

theorem WellFormed.peek_of_pageOf (hm : m.WellFormed) (hpage : m.PageOf a p) :
    m.peek w a = p.storage.peek w (a.toNat - p.start) a := by
  rw [peek, hm.pageOf_iff.1 hpage]
  exact if_pos hpage.2

theorem WellFormed.peek_of_ram {bytes : ByteStore} (hm : m.WellFormed) (hp : m.pageAt? a = some p)
    (hs : p.storage = .ram bytes) : m.peek w a = .ok (bytes.read w (a.toNat - p.start)) := by
  rw [hm.peek_of_pageOf (hm.pageOf_iff.2 hp), hs]
  rfl

theorem toNat_add_ofNat {a : Word} {i : Nat} (h : a.toNat + i < 2 ^ 32) :
    (a + BitVec.ofNat 32 i).toNat = a.toNat + i := by
  rw [BitVec.toNat_add, BitVec.toNat_ofNat]
  omega

theorem WellFormed.size_le {bytes : ByteStore} (hm : m.WellFormed) (hp : m.pageAt? a = some p)
    (hs : p.storage.backing? = some bytes) : bytes.size ≤ m.pageSize := by
  have h := (hm.fits_of_pageAt? hp).2.length
  rwa [Storage.length, hs] at h

section Backing

variable {bytes : ByteStore} (hm : m.WellFormed) (hp : m.pageAt? a = some p)
  (hs : p.storage.backing? = some bytes) (hle : a.toNat - p.start + w.bytes ≤ bytes.size)
include hm hp hs hle

theorem WellFormed.bounds_backed :
    p.start ≤ a.toNat ∧ a.toNat + w.bytes ≤ p.stop ∧ p.stop ≤ 2 ^ 32 := by
  obtain ⟨hstart, hstop, htop⟩ := hm.bounds hp
  have hsize := hm.size_le hp hs
  exact ⟨hstart, by omega, htop⟩

theorem WellFormed.pageOf_backed {b : Word} (hab : a.toNat ≤ b.toNat)
    (hb : b.toNat < a.toNat + w.bytes) : m.PageOf b p := by
  obtain ⟨hstart, hstop, _⟩ := hm.bounds_backed hp hs hle
  refine ⟨(hm.pageOf_iff.2 hp).1, ?_⟩
  rw [Page.contains, Bool.and_eq_true, decide_eq_true_eq, decide_eq_true_eq]
  omega

theorem WellFormed.pageOf_byte {i : Nat} (hi : i < w.bytes) :
    a.toNat + i < 2 ^ 32 ∧ m.PageOf (a + BitVec.ofNat 32 i) p := by
  obtain ⟨_, hstop, htop⟩ := hm.bounds_backed hp hs hle
  have hlt : a.toNat + i < 2 ^ 32 := by omega
  have hadd := toNat_add_ofNat hlt
  exact ⟨hlt, hm.pageOf_backed hp hs hle (by omega) (by omega)⟩

end Backing

theorem WellFormed.peek_byte_poke (hm : m.WellFormed) (hb : m.Backs w a) (h : m.poke w a v = .ok m')
    (b : Word) : m'.peek .byte b =
      if a.toNat ≤ b.toNat ∧ b.toNat < a.toNat + w.bytes then
        .ok ((v.byte (b.toNat - a.toNat)).setWidth 32)
      else m.peek .byte b := by
  have hm' := hm.poke h
  obtain ⟨p, bytes, t, hp, hs, hw, hok⟩ := hm.poke_of_backs (v := v) hb
  cases Except.ok.inj (h.symm.trans hok)
  obtain ⟨hi, hfits⟩ := hm.fits_of_pageAt? hp
  have hstart := (hm.bounds hp).1
  by_cases hplace : a.toNat / m.pageSize = b.toNat / m.pageSize
  · have hpb : m.pageAt? b = some p := by rw [pageAt?, ← hplace]; exact hp
    have hpb' := (pageAt?_replace (q := { p with storage := .ram t }) hp b).trans (if_pos hplace)
    have hstart' := (hm.bounds hpb).1
    rw [hm'.peek_of_ram hpb' rfl, hm.peek_of_ram hpb hs, ByteStore.read_byte_write? hw,
      apply_ite Except.ok]
    dsimp only
    rw [Nat.sub_sub_sub_cancel_right hstart]
    exact if_congr (by omega) rfl rfl
  · have hout : ¬ (a.toNat ≤ b.toNat ∧ b.toNat < a.toNat + w.bytes) := by
      rintro ⟨hab, hba⟩
      have hpage := hm.pageOf_backed hp (congrArg Storage.backing? hs) (ByteStore.fits_of_write? hw)
        hab hba
      exact hplace ((hfits.contains_iff m.pageSize_pos).1 hpage.2).symm
    rw [if_neg hout, peek, pageAt?_replace hp, if_neg hplace, peek]

theorem WellFormed.written (hm : m.WellFormed) (hb : m.Backs w a) (h : m.poke w a v = .ok m') :
    m.Written w a v m' := by
  have hm' := hm.poke h
  have hbyte := hm.peek_byte_poke hb h
  obtain ⟨p, bytes, t, hp, hs, hw, hok⟩ := hm.poke_of_backs (v := v) hb
  cases Except.ok.inj (h.symm.trans hok)
  have hbacking := congrArg Storage.backing? hs
  have hinside (i : Nat) (hi : i < w.bytes) := hm.pageOf_byte hp hbacking (ByteStore.fits_of_write? hw) hi
  refine ⟨⟨p, hinside⟩, fun i hi => ?byte, fun b hout => ?other, ?value,
    ⟨rfl, Array.size_setIfInBounds⟩, fun i hi hc => ?neighbours⟩
  case byte =>
    have hadd := toNat_add_ofNat (hinside i hi).1
    rw [hbyte, if_pos (by omega), hadd, Nat.add_sub_cancel_left, Word.setWidth_byte]
  case other =>
    rw [hbyte, if_neg (by omega)]
  case value =>
    have hp' := (pageAt?_replace (q := { p with storage := .ram t }) hp a).trans (if_pos rfl)
    rw [hm'.peek_of_ram hp' rfl, ByteStore.read_write? hw]
    rfl
  case neighbours =>
    have hne : a.toNat / m.pageSize ≠ i := by
      intro hplace
      rw [(hm.contains_iff hi).2 hplace] at hc
      cases hc
    rw [replace, Array.getElem?_setIfInBounds_ne hne, Array.getElem?_eq_getElem hi]

/-- A store succeeds in a zero page, and in a RAM page that backs the whole access; otherwise the page of
its first byte says why it is refused. A refused store, and one to a zero page, changes nothing. A store
to RAM puts the low bytes of the value, lowest first, into that page, and changes no other byte. -/
theorem poke_effect {n : Nat} (h : 0 < n) (ops : List Operation) (w : Width) (a v : Word) :
    let m := (empty n h).after ops
    ((∃ m', m.poke w a v = .ok m') ↔ m.Discards a ∨ m.Backs w a) ∧
    (∀ e, m.poke w a v = .error e ↔ m.Refused w a e) ∧
    (∀ e, m.Refused w a e → (Operation.poke w a v).apply m = m) ∧
    (m.Discards a → m.poke w a v = .ok m) ∧
    (∀ m', m.Backs w a → m.poke w a v = .ok m' → m.Written w a v m') ∧
    ∀ u b p, m.PageOf b p → m.peek u b = p.storage.peek u (b.toNat - p.start) b := by
  intro m
  have hm := ((wellFormed_empty n h).after ops).1
  refine ⟨hm.exists_poke_iff, fun e => hm.poke_eq_error_iff, fun e hr => ?_, hm.poke_of_discards,
    fun m' hb hok => hm.written hb hok, fun u b p hp => hm.peek_of_pageOf hp⟩
  rw [Operation.apply, hm.poke_of_refused hr]

theorem poke_effect_short_page :
    let m := (empty 8 (by decide)).after [.insert (.zeroedRam 6), .insert .zero]
    0 < 8 ∧ (∃ m', m.poke .half 4 0x1234abcd = .ok m' ∧ m.Written .half 4 0x1234abcd m') ∧
      m.poke .word 4 7 = .error (.pageBoundary 4 .word) ∧
      (Operation.poke .word 4 7).apply m = m ∧ m.poke .word 14 7 = .ok m := by
  intro m
  let ram : Page := ⟨0, 8, ⟨true, true⟩, .zeroedRam 6⟩
  let zero : Page := ⟨8, 16, ⟨true, true⟩, .zero⟩
  have hpages : m.pages = #[ram, zero] := by rfl
  have hram : m.PageOf 4 ram := ⟨by simp [hpages], by decide⟩
  have hzero : m.PageOf 14 zero := ⟨by simp [hpages], by decide⟩
  have hbacks : m.Backs .half 4 := ⟨ram, _, hram, rfl, by decide⟩
  have hrefused : m.Refused .word 4 (.pageBoundary 4 .word) := .pageBoundary hram rfl (by decide)
  obtain ⟨hok, _, _, _, hwritten, _⟩ := poke_effect (n := 8) (by decide)
    [.insert (.zeroedRam 6), .insert .zero] .half 4 0x1234abcd
  obtain ⟨_, herror, hkept, _⟩ := poke_effect (n := 8) (by decide)
    [.insert (.zeroedRam 6), .insert .zero] .word 4 7
  obtain ⟨_, _, _, hdiscards, _⟩ := poke_effect (n := 8) (by decide)
    [.insert (.zeroedRam 6), .insert .zero] .word 14 7
  obtain ⟨m', hm'⟩ := hok.2 (.inr hbacks)
  exact ⟨by decide, ⟨m', hm', hwritten m' hbacks hm'⟩, (herror _).2 hrefused, hkept _ hrefused,
    hdiscards ⟨zero, hzero, rfl⟩⟩

end Memory

end Hart
