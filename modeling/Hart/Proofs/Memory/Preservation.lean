import Hart.Proofs.Memory.Layout

namespace Hart

/-- A storage of the same kind and length; only the bytes of RAM may be others. -/
inductive Storage.Keeps : Storage → Storage → Prop
  | ram {s t : ByteStore} : t.size = s.size → Keeps (.ram s) (.ram t)
  | image (s : ByteStore) : Keeps (.image s) (.image s)
  | zero : Keeps .zero .zero
  | guard : Keeps .guard .guard

namespace Storage

variable {s t u : Storage} {w : Width} {offset : Nat} {a v : Word}

theorem Keeps.refl (s : Storage) : s.Keeps s := by
  cases s with
  | ram s => exact .ram rfl
  | image s => exact .image s
  | zero => exact .zero
  | guard => exact .guard

theorem Keeps.trans (h : s.Keeps t) (h' : t.Keeps u) : s.Keeps u := by
  cases h with
  | ram hs =>
    cases h' with
    | ram ht => exact .ram (ht.trans hs)
  | image s => exact h'
  | zero => exact h'
  | guard => exact h'

theorem keeps_of_poke (h : s.poke w offset a v = .ok t) : s.Keeps t := by
  cases s with
  | ram bytes =>
    rw [poke] at h
    split at h
    · next hw =>
      cases h
      exact .ram (ByteStore.size_write? hw)
    · cases h
  | image bytes => cases h
  | zero =>
    cases h
    exact .zero
  | guard => cases h

theorem Keeps.eq_of_not_ram (h : s.Keeps t) (hs : ∀ bytes, s ≠ .ram bytes) : t = s := by
  cases h with
  | ram _ => exact absurd rfl (hs _)
  | image s => rfl
  | zero => rfl
  | guard => rfl

end Storage

namespace Page

structure Keeps (p q : Page) : Prop where
  start : q.start = p.start
  stop : q.stop = p.stop
  rights : q.rights = p.rights
  storage : p.storage.Keeps q.storage

variable {p q r : Page} {w : Width} {a v : Word}

theorem Keeps.refl (p : Page) : p.Keeps p := ⟨rfl, rfl, rfl, .refl _⟩

theorem Keeps.trans (h : p.Keeps q) (h' : q.Keeps r) : p.Keeps r where
  start := h'.start.trans h.start
  stop := h'.stop.trans h.stop
  rights := h'.rights.trans h.rights
  storage := h.storage.trans h'.storage

theorem keeps_of_poke (h : p.poke w a v = .ok q) : p.Keeps q := by
  obtain ⟨_, s, hs, rfl⟩ := poke_eq_ok_iff.1 h
  exact ⟨rfl, rfl, rfl, Storage.keeps_of_poke hs⟩

theorem Keeps.eq_of_not_ram (h : p.Keeps q) (hp : ∀ bytes, p.storage ≠ .ram bytes) : q = p := by
  obtain ⟨start, stop, rights, storage⟩ := q
  obtain ⟨rfl, rfl, rfl, hs⟩ := h
  cases hs.eq_of_not_ram hp
  rfl

end Page

namespace Memory

structure Keeps (m m' : Memory) : Prop where
  pageSize : m'.pageSize = m.pageSize
  size : m'.pages.size = m.pages.size
  page : ∀ i (h : i < m.pages.size) (h' : i < m'.pages.size), (m.pages[i]).Keeps m'.pages[i]

def Stores : Memory → Memory → Prop :=
  Relation.ReflTransGen fun m m' => ∃ w a v, m.poke w a v = .ok m'

variable {m m' m'' : Memory} {w : Width} {a v : Word} {p : Page}

theorem Keeps.refl (m : Memory) : m.Keeps m := ⟨rfl, rfl, fun _ _ _ => .refl _⟩

theorem Keeps.trans (h : m.Keeps m') (h' : m'.Keeps m'') : m.Keeps m'' where
  pageSize := h'.pageSize.trans h.pageSize
  size := h'.size.trans h.size
  page i hi hi' :=
    have hmid : i < m'.pages.size := h.size ▸ hi
    (h.page i hi hmid).trans (h'.page i hmid hi')

theorem keeps_of_poke (h : m.poke w a v = .ok m') : m.Keeps m' := by
  obtain ⟨hi, q, hq, rfl⟩ := poke_eq_ok_iff.1 h
  refine ⟨rfl, Array.size_set hi, fun j hj hj' => ?_⟩
  rw [Array.getElem_set]
  split
  · next hij =>
    subst hij
    exact Page.keeps_of_poke hq
  · exact .refl _

theorem Stores.keeps (h : m.Stores m') : m.Keeps m' := by
  induction h with
  | refl => exact .refl m
  | tail _ hp ih =>
    obtain ⟨w, a, v, hp⟩ := hp
    exact ih.trans (keeps_of_poke hp)

theorem Keeps.pageAt? (h : m.Keeps m') (hp : m.pageAt? a = some p) :
    ∃ q, m'.pageAt? a = some q ∧ p.Keeps q := by
  obtain ⟨hi, rfl⟩ := Array.getElem?_eq_some_iff.1 hp
  have hi' : a.toNat / m.pageSize < m'.pages.size := h.size ▸ hi
  refine ⟨_, ?_, h.page _ hi hi'⟩
  rw [Memory.pageAt?, h.pageSize, Array.getElem?_eq_getElem hi']

theorem Keeps.peek_eq (h : m.Keeps m') (hp : m.pageAt? a = some p)
    (hs : ∀ bytes, p.storage ≠ .ram bytes) (w : Width) : m'.peek w a = m.peek w a := by
  obtain ⟨q, hq, hk⟩ := h.pageAt? hp
  cases hk.eq_of_not_ram hs
  rw [peek, peek, hp, hq]

def InImage (m : Memory) (w : Width) (a : Word) : Prop :=
  ∃ p bytes, m.pageAt? a = some p ∧ p.contains a = true ∧ p.storage = .image bytes ∧
    a.toNat - p.start + w.bytes ≤ bytes.size

theorem Keeps.peek_of_inImage (h : m.Keeps m') (ha : m.InImage w a) : m'.peek w a = m.peek w a := by
  obtain ⟨p, bytes, hp, _, hs, _⟩ := ha
  refine h.peek_eq hp ?_ w
  rw [hs]
  exact fun _ => nofun

def InZeroPage (m : Memory) (a : Word) : Prop :=
  ∃ p, m.pageAt? a = some p ∧ p.contains a = true ∧ p.storage = .zero

theorem Keeps.peek_of_inZeroPage (h : m.Keeps m') (ha : m.InZeroPage a) (w : Width) :
    m'.peek w a = .ok 0 := by
  obtain ⟨p, hp, hc, hs⟩ := ha
  rw [h.peek_eq hp (by rw [hs]; exact fun _ => nofun), peek, hp]
  change p.peek w a = _
  rw [Page.peek, if_pos hc, hs]
  rfl

end Memory

end Hart
