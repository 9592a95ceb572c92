import Hart.Proofs.Memory.Store
import Hart.Proofs.Word
import Mathlib

namespace Hart

theorem Width.toNat_combine (w : Width) (b : Nat → Byte) :
    (w.combine b).toNat = Nat.ofDigits 256 ((List.range w.bytes).map fun i => (b i).toNat) := by
  cases w with
  | byte =>
    rw [combine, BitVec.toNat_setWidth_of_le (by decide)]
    simp [bytes, List.range_succ]
  | half =>
    rw [combine, BitVec.toNat_setWidth_of_le (by decide), toNat_append_eq]
    simp [bytes, List.range_succ, Nat.ofDigits_cons]
    omega
  | word =>
    rw [combine, toNat_append_eq, toNat_append_eq, toNat_append_eq]
    simp [bytes, List.range_succ, Nat.ofDigits_cons]
    omega

theorem Storage.peek_of_backing {s : Storage} {bytes : ByteStore} (h : s.backing? = some bytes)
    (w : Width) (offset : Nat) (a : Word) : s.peek w offset a = .ok (bytes.read w offset) := by
  cases s with
  | ram bytes =>
    cases h
    rfl
  | image bytes =>
    cases h
    rfl
  | zero => cases h
  | guard => cases h

namespace Memory

inductive Barred (m : Memory) (a : Word) : MemoryError → Prop
  | outOfRange : (∀ p, ¬ m.PageOf a p) → Barred m a (.outOfRange a)
  | guardPage : m.PageOf a p → p.storage = .guard → Barred m a (.guardPage a .read)

/-- Why a read that began at `a` ends at `x`, an address or the end of the address space. -/
inductive Ends (m : Memory) (a : Word) (x : Nat) : MemoryError → Prop
  | barred : b.toNat = x → m.Barred b e → Ends m a x e
  | top : x = 2 ^ 32 → Ends m a x (.outOfRange a)

def Readable (m : Memory) (x : Nat) : Prop :=
  ∃ (b : Word) (p : Page), b.toNat = x ∧ m.PageOf b p ∧ p.rights.readable = true

def InBacking (m : Memory) (w : Width) (a : Word) : Prop :=
  ∃ p bytes, m.PageOf a p ∧ p.storage.backing? = some bytes ∧
    a.toNat - p.start + w.bytes ≤ bytes.size

variable {m : Memory} {w : Width} {a b v : Word} {p : Page} {e : MemoryError} {i j n : Nat}
  {bs read : Array Byte}

theorem WellFormed.barred_or (hm : m.WellFormed) (a : Word) :
    (∃ e, m.Barred a e) ∨ ∃ p, m.PageOf a p ∧ p.rights.readable = true := by
  cases hp : m.pageAt? a with
  | none =>
    refine .inl ⟨_, .outOfRange fun p hpage => ?_⟩
    rw [hm.pageOf_iff, hp] at hpage
    cases hpage
  | some p =>
    have hpage := hm.pageOf_iff.2 hp
    have hrights := (hm.fits_of_pageAt? hp).2.rights
    cases hs : p.storage with
    | guard => exact .inl ⟨_, .guardPage hpage hs⟩
    | ram bytes => exact .inr ⟨p, hpage, by rw [hrights, hs]; rfl⟩
    | image bytes => exact .inr ⟨p, hpage, by rw [hrights, hs]; rfl⟩
    | zero => exact .inr ⟨p, hpage, by rw [hrights, hs]; rfl⟩

theorem WellFormed.peek_of_barred (hm : m.WellFormed) (h : m.Barred a e) (w : Width) :
    m.peek w a = .error e := by
  cases h with
  | outOfRange hn =>
    have hp : m.pageAt? a = none := by
      rw [Option.eq_none_iff_forall_ne_some]
      exact fun p hp => hn p (hm.pageOf_iff.2 hp)
    rw [peek, hp]
  | guardPage hpage hs =>
    rw [hm.peek_of_pageOf hpage, hs]
    rfl

theorem WellFormed.peek_of_readable (hm : m.WellFormed) (hpage : m.PageOf a p)
    (hr : p.rights.readable = true) (w : Width) :
    m.peek w a = .ok ((p.storage.backing?.map (·.read w (a.toNat - p.start))).getD 0) := by
  have hrights := (hm.fits_of_pageAt? (hm.pageOf_iff.1 hpage)).2.rights
  rw [hm.peek_of_pageOf hpage]
  cases hs : p.storage with
  | guard =>
    rw [hrights, hs] at hr
    cases hr
  | ram bytes => rfl
  | image bytes => rfl
  | zero => rfl

theorem WellFormed.peek_eq_error_iff (hm : m.WellFormed) : m.peek w a = .error e ↔ m.Barred a e := by
  refine ⟨fun h => ?_, fun h => hm.peek_of_barred h w⟩
  rcases hm.barred_or a with ⟨e', hb⟩ | ⟨p, hpage, hr⟩
  · rw [hm.peek_of_barred hb] at h
    cases h
    exact hb
  · rw [hm.peek_of_readable hpage hr] at h
    cases h

theorem WellFormed.peek_of_not_inBacking (hm : m.WellFormed) (hb : ∀ e, ¬ m.Barred a e)
    (h : ¬ m.InBacking w a) : m.peek w a = .ok 0 := by
  obtain ⟨p, hpage, hr⟩ := (hm.barred_or a).resolve_left fun ⟨e, he⟩ => hb e he
  rw [hm.peek_of_readable hpage hr]
  cases hs : p.storage.backing? with
  | none => rfl
  | some bytes =>
    rw [Option.map_some, Option.getD_some, ByteStore.read,
      if_neg fun hle => h ⟨p, bytes, hpage, hs, hle⟩]

theorem byteAbove_of_lt (h : a.toNat + i < 2 ^ 32) :
    m.byteAbove a i = (m.peek .byte (a + BitVec.ofNat 32 i)).map (BitVec.setWidth 8) := by
  have hlt : a.toNat + i < addressSpace := h
  rw [byteAbove, if_pos hlt]
  cases m.peek .byte (a + BitVec.ofNat 32 i) <;> rfl

theorem byteAbove_of_le (h : 2 ^ 32 ≤ a.toNat + i) : m.byteAbove a i = .error (.outOfRange a) := by
  have hnot : ¬ a.toNat + i < addressSpace := Nat.not_lt.2 h
  rw [byteAbove, if_neg hnot]

theorem byteAbove_eq_ok_iff {x : Byte} : m.byteAbove a i = .ok x ↔
    a.toNat + i < 2 ^ 32 ∧ m.peek .byte (a + BitVec.ofNat 32 i) = .ok (x.setWidth 32) := by
  by_cases h : a.toNat + i < 2 ^ 32
  · rw [byteAbove_of_lt h]
    cases hv : m.peek .byte (a + BitVec.ofNat 32 i) with
    | error e => simp [Except.map]
    | ok v =>
      have hlt : v.toNat < 2 ^ 8 := peek_lt hv
      simp only [Except.map, Except.ok.injEq, h, true_and]
      constructor
      · rintro rfl
        rw [← BitVec.toNat_inj]
        simp
        omega
      · rintro rfl
        simp
  · rw [byteAbove_of_le (Nat.le_of_not_lt h)]
    simp only [h, false_and, reduceCtorEq]

theorem WellFormed.exists_byteAbove_iff (hm : m.WellFormed) :
    (∃ x, m.byteAbove a i = .ok x) ↔ m.Readable (a.toNat + i) := by
  constructor
  · rintro ⟨x, hx⟩
    obtain ⟨hlt, hpeek⟩ := byteAbove_eq_ok_iff.1 hx
    rcases hm.barred_or (a + BitVec.ofNat 32 i) with ⟨e, he⟩ | ⟨p, hpage, hr⟩
    · rw [hm.peek_of_barred he] at hpeek
      cases hpeek
    · exact ⟨_, p, toNat_add_ofNat hlt, hpage, hr⟩
  · rintro ⟨b, p, hb, hpage, hr⟩
    have hlt : a.toNat + i < 2 ^ 32 := hb ▸ b.isLt
    obtain rfl : a + BitVec.ofNat 32 i = b := by rw [← BitVec.toNat_inj, toNat_add_ofNat hlt, hb]
    rw [byteAbove_of_lt hlt, hm.peek_of_readable hpage hr]
    exact ⟨_, rfl⟩

theorem WellFormed.byteAbove_eq_error_iff (hm : m.WellFormed) (h : a.toNat + i ≤ 2 ^ 32) :
    m.byteAbove a i = .error e ↔ m.Ends a (a.toNat + i) e := by
  constructor
  · intro he
    rcases Nat.lt_or_eq_of_le h with hlt | htop
    · rw [byteAbove_of_lt hlt] at he
      cases hp : m.peek .byte (a + BitVec.ofNat 32 i) with
      | ok v =>
        rw [hp] at he
        cases he
      | error e' =>
        rw [hp] at he
        cases he
        exact .barred (toNat_add_ofNat hlt) (hm.peek_eq_error_iff.1 hp)
    · rw [byteAbove_of_le htop.ge] at he
      cases he
      exact .top htop
  · rintro (⟨hb, he⟩ | htop)
    · next b =>
      have hlt : a.toNat + i < 2 ^ 32 := hb ▸ b.isLt
      obtain rfl : a + BitVec.ofNat 32 i = b := by rw [← BitVec.toNat_inj, toNat_add_ofNat hlt, hb]
      rw [byteAbove_of_lt hlt, hm.peek_of_barred he]
      rfl
    · exact byteAbove_of_le htop.ge

theorem readBytesFrom_eq_ok_iff : m.readBytesFrom a i n read = .ok bs ↔
    ∃ rest : List Byte, bs = read ++ rest.toArray ∧
      List.Forall₂ (fun j x => m.byteAbove a j = .ok x) (List.range' i n) rest := by
  induction n generalizing i read with
  | zero => simp [readBytesFrom, eq_comm (b := bs)]
  | succ n ih =>
    rw [readBytesFrom, List.range'_succ]
    simp only [List.forall₂_cons_left_iff]
    cases m.byteAbove a i with
    | error e => simp
    | ok x =>
      rw [ih]
      constructor
      · rintro ⟨rest, rfl, h⟩
        exact ⟨x :: rest, by simp, x, rest, rfl, h, rfl⟩
      · rintro ⟨_, rfl, _, rest, ⟨⟩, h, rfl⟩
        exact ⟨rest, by simp, h⟩

theorem readBytesFrom_eq_error_iff : m.readBytesFrom a i n read = .error e ↔
    ∃ k < n, (∀ j < k, ∃ x, m.byteAbove a (i + j) = .ok x) ∧ m.byteAbove a (i + k) = .error e := by
  induction n generalizing i read with
  | zero => simp [readBytesFrom]
  | succ n ih =>
    simp only [readBytesFrom, Nat.exists_lt_succ_left, Nat.forall_lt_succ_left, Nat.add_zero]
    cases m.byteAbove a i with
    | error e' => simp
    | ok x => simp [ih, Nat.add_right_comm i 1, ← Nat.add_assoc]

theorem readBytes_eq_ok_iff : m.readBytes a n = .ok bs ↔
    bs.size = n ∧ ∀ i (h : i < bs.size), m.byteAbove a i = .ok bs[i] := by
  simp only [readBytes, readBytesFrom_eq_ok_iff, List.forall₂_iff_get]
  constructor
  · rintro ⟨rest, rfl, hlen, h⟩
    simp at hlen
    refine ⟨by simp [hlen], fun i hi => ?_⟩
    have := h i (by simp at hi ⊢; omega) (by simp at hi; omega)
    simpa using this
  · rintro ⟨rfl, h⟩
    refine ⟨bs.toList, by simp, by simp, fun i hi hi' => ?_⟩
    simpa using h i (by simpa using hi')

theorem WellFormed.exists_readBytes_iff (hm : m.WellFormed) :
    (∃ bs, m.readBytes a n = .ok bs) ↔ ∀ i < n, m.Readable (a.toNat + i) := by
  simp only [← hm.exists_byteAbove_iff]
  constructor
  · rintro ⟨bs, hbs⟩ i hi
    obtain ⟨rfl, h⟩ := readBytes_eq_ok_iff.1 hbs
    exact ⟨_, h i hi⟩
  · intro h
    cases hbs : m.readBytes a n with
    | ok bs => exact ⟨bs, rfl⟩
    | error e =>
      obtain ⟨k, hk, _, he⟩ := readBytesFrom_eq_error_iff.1 hbs
      obtain ⟨x, hx⟩ := h k hk
      rw [Nat.zero_add, hx] at he
      cases he

theorem WellFormed.readBytes_eq_error_iff (hm : m.WellFormed) : m.readBytes a n = .error e ↔
    ∃ k < n, (∀ j < k, m.Readable (a.toNat + j)) ∧ m.Ends a (a.toNat + k) e := by
  rw [readBytes, readBytesFrom_eq_error_iff]
  simp only [Nat.zero_add, hm.exists_byteAbove_iff]
  refine exists_congr fun k => and_congr_right fun _ => and_congr_right fun hok => ?_
  -- The address before `k` can be read, so that `k` is at most the end of the address space.
  refine hm.byteAbove_eq_error_iff ?_
  cases k with
  | zero => exact a.isLt.le
  | succ k =>
    obtain ⟨b, _, hb, _⟩ := hok k (Nat.lt_succ_self k)
    have := b.isLt
    omega

theorem WellFormed.peek_of_inBacking (hm : m.WellFormed) (h : m.InBacking w a) :
    ∃ bs v p, m.readBytes a w.bytes = .ok bs ∧ m.peek w a = .ok v ∧
      v.toNat = Nat.ofDigits 256 (bs.toList.map BitVec.toNat) ∧
      ∀ i < w.bytes, a.toNat + i < 2 ^ 32 ∧ m.PageOf (a + BitVec.ofNat 32 i) p := by
  obtain ⟨p, bytes, hpage, hs, hle⟩ := h
  have hp := hm.pageOf_iff.1 hpage
  have hinside (i : Nat) (hi : i < w.bytes) := hm.pageOf_byte hp hs hle hi
  have hbyte (i : Nat) (hi : i < w.bytes) :
      m.byteAbove a i = .ok (bytes.get (a.toNat - p.start + i)) := by
    obtain ⟨hlt, hpage'⟩ := hinside i hi
    have hoffset : (a + BitVec.ofNat 32 i).toNat - p.start = a.toNat - p.start + i := by
      have := (hm.bounds hp).1
      rw [toNat_add_ofNat hlt]
      omega
    rw [byteAbove_eq_ok_iff]
    refine ⟨hlt, ?_⟩
    rw [hm.peek_of_pageOf hpage', Storage.peek_of_backing hs, hoffset, ByteStore.read_byte,
      if_pos (by omega)]
  refine ⟨Array.ofFn fun i : Fin w.bytes => bytes.get (a.toNat - p.start + i),
    w.combine fun i => bytes.get (a.toNat - p.start + i), p, ?read, ?load, ?value, hinside⟩
  case read =>
    rw [readBytes_eq_ok_iff]
    refine ⟨Array.size_ofFn, fun i hi => ?_⟩
    rw [Array.getElem_ofFn]
    exact hbyte i (by simpa using hi)
  case load =>
    rw [hm.peek_of_pageOf hpage, Storage.peek_of_backing hs, ByteStore.read, if_pos hle]
  case value =>
    rw [Width.toNat_combine]
    congr 1
    apply List.ext_getElem <;> simp

/-- A load fails if no page contains its address or that page is a guard page, and for no other reason. It
gives the number that the bytes of a read write, lowest first, if the page backs them all, and otherwise
zero. A read of bytes gives what loads of one byte find, if every address can be read; if not, the first
that cannot, or the end of the address space, says why. -/
theorem reads_agree {n : Nat} (h : 0 < n) (ops : List Operation) (w : Width) (a : Word) :
    let m := (empty n h).after ops
    (∀ e, m.peek w a = .error e ↔ m.Barred a e) ∧
    (m.InBacking w a → ∃ bs v p, m.readBytes a w.bytes = .ok bs ∧ m.peek w a = .ok v ∧
      v.toNat = Nat.ofDigits 256 (bs.toList.map BitVec.toNat) ∧
      ∀ i < w.bytes, a.toNat + i < 2 ^ 32 ∧ m.PageOf (a + BitVec.ofNat 32 i) p) ∧
    ((∀ e, ¬ m.Barred a e) → ¬ m.InBacking w a → m.peek w a = .ok 0) ∧
    (∀ k, (∃ bs, m.readBytes a k = .ok bs) ↔ ∀ i < k, m.Readable (a.toNat + i)) ∧
    (∀ k bs, m.readBytes a k = .ok bs ↔ bs.size = k ∧ ∀ i (hi : i < bs.size),
      a.toNat + i < 2 ^ 32 ∧ m.peek .byte (a + BitVec.ofNat 32 i) = .ok (bs[i].setWidth 32)) ∧
    ∀ k e, m.readBytes a k = .error e ↔
      ∃ i < k, (∀ j < i, m.Readable (a.toNat + j)) ∧ m.Ends a (a.toNat + i) e := by
  intro m
  have hm := ((wellFormed_empty n h).after ops).1
  refine ⟨fun e => hm.peek_eq_error_iff, hm.peek_of_inBacking, hm.peek_of_not_inBacking,
    fun k => hm.exists_readBytes_iff, fun k bs => ?_, fun k e => hm.readBytes_eq_error_iff⟩
  simp only [readBytes_eq_ok_iff, byteAbove_eq_ok_iff]

theorem reads_agree_guard :
    let m := (empty 4 (by decide)).after
      [.insert (.image (.ofArray #[0x78, 0x56, 0x34])), .insert (.ram (.ofArray #[1, 2, 3, 4])),
        .insert .guard]
    0 < 4 ∧
    (∃ bs v, m.readBytes 0 2 = .ok bs ∧ m.peek .half 0 = .ok v ∧
      v.toNat = Nat.ofDigits 256 (bs.toList.map BitVec.toNat)) ∧
    m.readBytes 2 6 = .ok #[0x34, 0, 1, 2, 3, 4] ∧ m.peek .half 2 = .ok 0 ∧
    m.readBytes 2 9 = .error (.guardPage 8 .read) := by
  intro m
  let image : Page := ⟨0, 4, ⟨true, false⟩, .image (.ofArray #[0x78, 0x56, 0x34])⟩
  let ram : Page := ⟨4, 8, ⟨true, true⟩, .ram (.ofArray #[1, 2, 3, 4])⟩
  let guard : Page := ⟨8, 12, ⟨false, false⟩, .guard⟩
  let ops : List Operation := [.insert (.image (.ofArray #[0x78, 0x56, 0x34])),
    .insert (.ram (.ofArray #[1, 2, 3, 4])), .insert .guard]
  have hm := ((wellFormed_empty 4 (by decide)).after ops).1
  have hbytes : m.readBytes 2 6 = .ok #[0x34, 0, 1, 2, 3, 4] := by decide +kernel
  have hpages : m.pages = #[image, ram, guard] := by rfl
  have hfirst : m.PageOf 0 image := ⟨by simp [hpages], by decide⟩
  have hlast : m.PageOf 2 image := ⟨by simp [hpages], by decide⟩
  have hguard : m.PageOf 8 guard := ⟨by simp [hpages], by decide⟩
  have himage (p : Page) (hp : m.PageOf 2 p) : image = p :=
    Option.some.inj ((hm.pageOf_iff.1 hlast).symm.trans (hm.pageOf_iff.1 hp))
  obtain ⟨_, hload, _⟩ := reads_agree (n := 4) (by decide) ops .half 0
  obtain ⟨_, _, hzero, hreads, _, hends⟩ := reads_agree (n := 4) (by decide) ops .half 2
  obtain ⟨bs, v, _, hbs, hv, hvalue, _⟩ := hload ⟨image, _, hfirst, rfl, by decide⟩
  refine ⟨by decide, ⟨bs, v, hbs, hv, hvalue⟩, hbytes, hzero ?readable ?short, ?stops⟩
  case readable =>
    rintro e (hnone | ⟨hpage, hs⟩)
    · exact hnone image hlast
    · cases himage _ hpage
      cases hs
  case short =>
    rintro ⟨p, bytes, hpage, hs, hle⟩
    cases himage _ hpage
    cases hs
    exact absurd hle (by decide)
  case stops =>
    exact (hends 9 _).2 ⟨6, by decide, (hreads 6).1 ⟨_, hbytes⟩, .barred rfl (.guardPage hguard rfl)⟩

end Memory

end Hart
