import Hart.Proofs.Memory.Reads
import Mathlib

namespace Hart.Manual

/-- What stands at an address. RAM and images hold no byte behind the end of what backs their page. -/
inductive Cell
  | absent
  | guard
  | zero
  | image (byte? : Option Nat)
  | ram (byte? : Option Nat)
  deriving DecidableEq

def Cell.byte? : Cell → Option Nat
  | .image b => b
  | .ram b => b
  | _ => none

/-- Memory as a program finds it. Of the cells, `pageSize` at a time make up a page. -/
structure Space where
  pageSize : Nat
  cell : Nat → Cell

namespace Space

/-- The `n` bytes from `a` on are all there, in the page of the first. -/
def Holds (s : Space) (n a : Nat) : Prop :=
  ∀ i < n, (a + i) / s.pageSize = a / s.pageSize ∧ (s.cell (a + i)).byte?.isSome

instance (s : Space) (n a : Nat) : Decidable (s.Holds n a) :=
  inferInstanceAs (Decidable (∀ i < n, _))

def CanRead (s : Space) (a : Nat) : Prop := s.cell a ≠ .absent ∧ s.cell a ≠ .guard

def CanWrite (s : Space) (n a : Nat) : Prop :=
  s.cell a = .zero ∨ (∃ b, s.cell a = .ram b) ∧ s.Holds n a

def number (s : Space) (n a : Nat) : Nat :=
  Nat.ofDigits 256 ((List.range n).map fun i => (s.cell (a + i)).byte?.getD 0)

def load? (s : Space) (n a : Nat) : Option Nat :=
  match s.cell a with
  | .zero => some 0
  | .image _ | .ram _ => some (if s.Holds n a then s.number n a else 0)
  | .absent | .guard => none

def put (s : Space) (n a v : Nat) : Space :=
  { s with cell := fun b =>
      if a ≤ b ∧ b < a + n then .ram (some (v / 256 ^ (b - a) % 256)) else s.cell b }

theorem cell_put (s : Space) (n a v b : Nat) : (s.put n a v).cell b =
    if a ≤ b ∧ b < a + n then .ram (some (v / 256 ^ (b - a) % 256)) else s.cell b := rfl

def store? (s : Space) (n a v : Nat) : Option Space :=
  match s.cell a with
  | .zero => some s
  | .ram _ => if s.Holds n a then some (s.put n a v) else none
  | _ => none

theorem isSome_load?_iff (s : Space) (n a : Nat) : (s.load? n a).isSome ↔ s.CanRead a := by
  rw [load?, CanRead]
  cases s.cell a <;> simp

theorem isSome_store?_iff (s : Space) (n a v : Nat) : (s.store? n a v).isSome ↔ s.CanWrite n a := by
  rw [store?, CanWrite]
  cases s.cell a with
  | ram b => by_cases h : s.Holds n a <;> simp [h]
  | absent | guard | zero | image b => simp

end Space

def Cell.ofBytes (bytes : ByteStore) (i : Nat) : Option Nat :=
  if i < bytes.size then some (bytes.get i).toNat else none

def Cell.ofStorage (i : Nat) : Storage → Cell
  | .ram bytes => .ram (ofBytes bytes i)
  | .image bytes => .image (ofBytes bytes i)
  | .zero => .zero
  | .guard => .guard

theorem Cell.byte?_ofStorage {s : Storage} {bytes : ByteStore} (hs : s.backing? = some bytes)
    (i : Nat) : (ofStorage i s).byte? = ofBytes bytes i := by
  cases s with
  | ram _ | image _ =>
    cases hs
    rfl
  | zero | guard => cases hs

theorem Cell.ofBytes_write? {bytes t : ByteStore} {w : Width} {i : Nat} {v : Word}
    (h : bytes.write? w i v = some t) (j : Nat) : ofBytes t j =
      if i ≤ j ∧ j < i + w.bytes then some (v.toNat / 256 ^ (j - i) % 256) else ofBytes bytes j := by
  have hle := ByteStore.fits_of_write? h
  have hbyte (k : Nat) : (v.byte k).toNat = v.toNat / 256 ^ k % 256 := by
    rw [Word.byte, BitVec.extractLsb'_toNat, Nat.shiftRight_eq_div_pow, Nat.pow_mul]
  rw [ofBytes, ofBytes, ByteStore.get_write? h, ByteStore.size_write? h]
  by_cases hj : i ≤ j ∧ j < i + w.bytes
  · rw [if_pos (by omega), if_pos hj, if_pos hj, hbyte]
  · rw [if_neg hj, if_neg hj]

namespace Space

def ofMemory (m : Memory) : Space where
  pageSize := m.pageSize
  cell a :=
    match m.pages[a / m.pageSize]? with
    | some p => .ofStorage (a % m.pageSize) p.storage
    | none => .absent

variable {m m' : Memory} {a v : Word} {p : Page} {w : Width} {bytes : ByteStore}

theorem cell_of_pageAt? (hp : m.pageAt? a = some p) {b : Nat}
    (hb : b / m.pageSize = a.toNat / m.pageSize) :
    (ofMemory m).cell b = .ofStorage (b % m.pageSize) p.storage := by
  rw [Memory.pageAt?, ← hb] at hp
  simp only [ofMemory, hp]

theorem cell_of_none (hp : m.pageAt? a = none) : (ofMemory m).cell a.toNat = .absent := by
  rw [Memory.pageAt?] at hp
  simp only [ofMemory, hp]

theorem div_eq_iff_mod_add_lt {n a i : Nat} (hn : 0 < n) : (a + i) / n = a / n ↔ a % n + i < n := by
  rw [Nat.div_eq_iff hn]
  have := Nat.div_add_mod a n
  have := Nat.mod_lt a hn
  have := Nat.mul_comm n (a / n)
  omega

theorem mod_add_of_lt {n a i : Nat} (h : a % n + i < n) : (a + i) % n = a % n + i := by
  rw [← Nat.mod_add_mod, Nat.mod_eq_of_lt h]

theorem offset_eq (hm : m.WellFormed) (hp : m.pageAt? a = some p) :
    a.toNat - p.start = a.toNat % m.pageSize := by
  rw [(hm.fits_of_pageAt? hp).2.start, Nat.mod_eq_sub_div_mul]

theorem byte?_cell (hp : m.pageAt? a = some p) (hs : p.storage.backing? = some bytes) {i : Nat}
    (hi : a.toNat % m.pageSize + i < m.pageSize) :
    ((ofMemory m).cell (a.toNat + i)).byte? = Cell.ofBytes bytes (a.toNat % m.pageSize + i) := by
  rw [cell_of_pageAt? hp ((div_eq_iff_mod_add_lt m.pageSize_pos).2 hi), Cell.byte?_ofStorage hs,
    mod_add_of_lt hi]

theorem holds_ofMemory_iff (hm : m.WellFormed) (hp : m.pageAt? a = some p)
    (hs : p.storage.backing? = some bytes) :
    (ofMemory m).Holds w.bytes a.toNat ↔ a.toNat - p.start + w.bytes ≤ bytes.size := by
  have hsize := hm.size_le hp hs
  have hpos : 0 < w.bytes := by cases w <;> decide
  rw [offset_eq hm hp]
  constructor
  · intro h
    -- The last byte of the access is in the page, and before the end of its backing.
    obtain ⟨hplace, hbyte⟩ := h (w.bytes - 1) (by omega)
    rw [byte?_cell hp hs ((div_eq_iff_mod_add_lt m.pageSize_pos).1 hplace), Cell.ofBytes] at hbyte
    split at hbyte
    · omega
    · cases hbyte
  · intro h i hi
    have hlt : a.toNat % m.pageSize + i < m.pageSize := by omega
    refine ⟨(div_eq_iff_mod_add_lt m.pageSize_pos).2 hlt, ?_⟩
    rw [byte?_cell hp hs hlt, Cell.ofBytes, if_pos (by omega)]
    rfl

theorem number_ofMemory (hm : m.WellFormed) (hp : m.pageAt? a = some p)
    (hs : p.storage.backing? = some bytes) (hle : a.toNat - p.start + w.bytes ≤ bytes.size) :
    (ofMemory m).number w.bytes a.toNat = (bytes.read w (a.toNat - p.start)).toNat := by
  have hsize := hm.size_le hp hs
  rw [ByteStore.read, if_pos hle, Width.toNat_combine, number]
  rw [offset_eq hm hp] at hle ⊢
  congr 1
  refine List.map_congr_left fun i hi => ?_
  rw [List.mem_range] at hi
  rw [byte?_cell hp hs (by omega), Cell.ofBytes, if_pos (by omega), Option.getD_some]

theorem load?_of_backing (hm : m.WellFormed) (hp : m.pageAt? a = some p)
    (hs : p.storage.backing? = some bytes) :
    (ofMemory m).load? w.bytes a.toNat = some (bytes.read w (a.toNat - p.start)).toNat := by
  have hread : (ofMemory m).load? w.bytes a.toNat =
      some (if (ofMemory m).Holds w.bytes a.toNat then (ofMemory m).number w.bytes a.toNat else 0) := by
    rw [load?, cell_of_pageAt? hp rfl]
    cases hc : p.storage with
    | ram _ | image _ => rfl
    | zero | guard =>
      rw [hc] at hs
      cases hs
  rw [hread]
  by_cases hle : a.toNat - p.start + w.bytes ≤ bytes.size
  · rw [if_pos ((holds_ofMemory_iff hm hp hs).2 hle), number_ofMemory hm hp hs hle]
  · rw [if_neg (mt (holds_ofMemory_iff hm hp hs).1 hle), ByteStore.read, if_neg hle]
    rfl

theorem load?_ofMemory (hm : m.WellFormed) (w : Width) (a : Word) :
    (ofMemory m).load? w.bytes a.toNat = (m.peek w a).toOption.map BitVec.toNat := by
  cases hp : m.pageAt? a with
  | none =>
    rw [load?, cell_of_none hp, Memory.peek, hp]
    rfl
  | some p =>
    rw [hm.peek_of_pageOf (hm.pageOf_iff.2 hp)]
    cases hs : p.storage with
    | ram bytes | image bytes => exact load?_of_backing hm hp (congrArg Storage.backing? hs)
    | zero | guard =>
      have hcell := (cell_of_pageAt? hp rfl).trans (congrArg (Cell.ofStorage _) hs)
      rw [load?, hcell]
      rfl

theorem cell_replace {q : Page} (hp : m.pageAt? a = some p) (b : Nat) :
    (ofMemory (m.replace a q)).cell b =
      if b / m.pageSize = a.toNat / m.pageSize then .ofStorage (b % m.pageSize) q.storage
      else (ofMemory m).cell b := by
  obtain ⟨hi, _⟩ := Array.getElem?_eq_some_iff.1 hp
  simp only [ofMemory, Memory.replace, Array.getElem?_setIfInBounds, if_pos hi]
  by_cases hb : b / m.pageSize = a.toNat / m.pageSize
  · rw [if_pos hb, if_pos hb.symm]
  · rw [if_neg hb, if_neg (Ne.symm hb)]

theorem ofMemory_replace (hm : m.WellFormed) (hp : m.pageAt? a = some p) (hs : p.storage = .ram bytes)
    {t : ByteStore} (hw : bytes.write? w (a.toNat - p.start) v = some t) :
    ofMemory (m.replace a { p with storage := .ram t }) = (ofMemory m).put w.bytes a.toNat v.toNat := by
  have hcell (b : Nat) : (ofMemory (m.replace a { p with storage := .ram t })).cell b =
      ((ofMemory m).put w.bytes a.toNat v.toNat).cell b := by
    have hle := ByteStore.fits_of_write? hw
    have hsize := hm.size_le hp (congrArg Storage.backing? hs)
    have hda := Nat.div_add_mod a.toNat m.pageSize
    rw [offset_eq hm hp] at hw hle
    rw [cell_replace hp, cell_put]
    by_cases hb : b / m.pageSize = a.toNat / m.pageSize
    · have hdb := Nat.div_add_mod b m.pageSize
      rw [hb] at hdb
      rw [if_pos hb, Cell.ofStorage, Cell.ofBytes_write? hw, cell_of_pageAt? hp hb, hs,
        Cell.ofStorage, apply_ite Cell.ram]
      have hoffset : b % m.pageSize - a.toNat % m.pageSize = b - a.toNat := by omega
      rw [hoffset]
      exact if_congr (by omega) rfl rfl
    · rw [if_neg hb, if_neg]
      rintro ⟨hab, hba⟩
      -- A byte of the access is in the page of the first.
      have hlt : a.toNat % m.pageSize + (b - a.toNat) < m.pageSize := by omega
      have hplace := (div_eq_iff_mod_add_lt m.pageSize_pos).2 hlt
      rw [Nat.add_sub_cancel' hab] at hplace
      exact hb hplace
  exact congrArg (Space.mk m.pageSize) (funext hcell)

theorem store?_ofMemory (hm : m.WellFormed) (w : Width) (a v : Word) :
    (ofMemory m).store? w.bytes a.toNat v.toNat = (m.poke w a v).toOption.map ofMemory := by
  cases hp : m.pageAt? a with
  | none =>
    rw [store?, cell_of_none hp, Memory.poke_of_none hp]
    rfl
  | some p =>
    rw [store?, cell_of_pageAt? hp rfl]
    have hpage := hm.pageOf_iff.2 hp
    cases hs : p.storage with
    | image _ =>
      rw [hm.poke_of_refused (.readOnly hpage hs)]
      rfl
    | guard =>
      rw [hm.poke_of_refused (.guardPage hpage hs)]
      rfl
    | zero =>
      rw [hm.poke_of_discards ⟨p, hpage, hs⟩]
      rfl
    | ram bytes =>
      have hholds := holds_ofMemory_iff (w := w) hm hp (congrArg Storage.backing? hs)
      rw [Cell.ofStorage]
      by_cases hle : a.toNat - p.start + w.bytes ≤ bytes.size
      · obtain ⟨p', bytes', t, hp', hs', hw, hok⟩ := hm.poke_of_backs (v := v) ⟨p, bytes, hpage, hs, hle⟩
        cases hp.symm.trans hp'
        cases hs.symm.trans hs'
        rw [hok]
        exact (if_pos (hholds.2 hle)).trans (congrArg some (ofMemory_replace hm hp hs hw).symm)
      · rw [hm.poke_of_refused (.pageBoundary hpage hs (Nat.lt_of_not_le hle))]
        exact if_neg (mt hholds.1 hle)

end Space

end Hart.Manual
