import Hart.Console.Command
import Hart.Proofs.Memory.Placement
import Hart.Proofs.Programs.Code
import Mathlib

namespace Hart

namespace Memory

structure Traps (m : Memory) (a : Word) : Prop where
  peek : ∀ w, ∃ e, m.peek w a = .error e ∧ e.isFatalTrap = true
  poke : ∀ w v, ∃ e, m.poke w a v = .error e ∧ e.isFatalTrap = true

def Recalls (m : Memory) (a : Word) : Prop :=
  ∀ v, ∃ m', m.poke .word a v = .ok m' ∧ m'.peek .word a = .ok v

variable {m : Memory} {a : Word} {s : Storage}

theorem WellFormed.exists_pageOf (hm : m.WellFormed) (h : m.storages[a.toNat / m.pageSize]? = some s) :
    ∃ p, m.PageOf a p ∧ p.start = a.toNat / m.pageSize * m.pageSize ∧ p.storage = s := by
  rw [getElem?_storages, Option.map_eq_some_iff] at h
  obtain ⟨p, hp, hs⟩ := h
  exact ⟨p, hm.pageOf_iff.2 hp, (hm.fits_of_pageAt? hp).2.start, hs⟩

theorem WellFormed.traps_of_guard (hm : m.WellFormed)
    (h : m.storages[a.toNat / m.pageSize]? = some .guard) : m.Traps a := by
  obtain ⟨p, hpage, _, hs⟩ := hm.exists_pageOf h
  exact ⟨fun w => ⟨_, hm.peek_of_barred (.guardPage hpage hs) w, rfl⟩,
    fun w v => ⟨_, hm.poke_of_refused (.guardPage hpage hs), rfl⟩⟩

theorem WellFormed.recalls_of_zeroedRam (hm : m.WellFormed)
    (h : m.storages[a.toNat / m.pageSize]? = some (.zeroedRam m.pageSize))
    (hfit : a.toNat % m.pageSize + 4 ≤ m.pageSize) : m.Recalls a := by
  obtain ⟨p, hpage, hstart, hs⟩ := hm.exists_pageOf h
  have hmod : a.toNat - p.start = a.toNat % m.pageSize := by
    rw [hstart, Nat.mod_eq_sub_div_mul]
  have hbacks : m.Backs .word a := by
    refine ⟨p, _, hpage, hs, ?_⟩
    rw [hmod, ByteStore.size_zeroed]
    exact hfit
  intro v
  obtain ⟨m', hm'⟩ := hm.exists_poke_iff.2 (.inr hbacks)
  have hvalue : m'.peek .word a = .ok (Width.word.low v) := (hm.written hbacks hm').value
  rw [Width.low_word] at hvalue
  exact ⟨m', hm', hvalue⟩

end Memory

namespace Assembly.Program

def pages (p : Program) (n : Nat) : Nat := max 1 (4 * p.words.length ⌈/⌉ n)

def page (p : Program) (n i : Nat) : Storage :=
  .image (.ofArray (p.bytes.toArray.extract (i * n) ((i + 1) * n)))

def body (p : Program) (n r : Nat) : List Storage :=
  [.zero] ++ (List.range (p.pages n)).map (p.page n) ++ List.replicate r (.zeroedRam n)

/-- A zero page, the pages of the code, `r` pages of zeroed RAM and a guard page stand back to back from
address zero. The code is entered at its begin, and the stack begins at the end of that RAM. -/
structure LaidOut (p : Program) (n r : Nat) (image : Image) : Prop where
  wellFormed : image.memory.WellFormed
  pageSize : image.memory.pageSize = n
  storages : image.memory.storages = p.body n r ++ [.guard]
  entry : image.entry.toNat = n
  stackPointer : image.stackPointer.toNat = (1 + p.pages n + r) * n

variable {p : Program} {n r : Nat} {image : Image} {a : Word}

theorem length_body (p : Program) (n r : Nat) : (p.body n r).length = 1 + p.pages n + r := by
  rw [body, List.length_append, List.length_append, List.length_map, List.length_range,
    List.length_replicate, List.length_singleton]

theorem insertImage_bytes (p : Program) (m : Memory) : m.insertImage p.bytes.toArray false =
    Memory.insertFrom (p.page m.pageSize) 0 (p.pages m.pageSize) m := by
  have hpages : m.pagesFor p.bytes.toArray.size = p.pages m.pageSize := by
    rw [Memory.pagesFor_eq, List.size_toArray, length_bytes, pages]
  rw [Memory.insertImage_eq, hpages]
  rfl

theorem adds_code (p : Program) {m : Memory} (hm : m.WellFormed) :
    m.Adds ((List.range (p.pages m.pageSize)).map (p.page m.pageSize))
      (m.insertImage p.bytes.toArray false) := by
  rw [insertImage_bytes, List.range_eq_range']
  exact hm.adds_insertFrom (m.length_imageStorage_le p.bytes.toArray false) 0 _

theorem adds_layOut (p : Program) (hn : 0 < n) (r : Nat) :
    (Memory.empty n hn).Adds (p.body n r) (p.layOut (.empty n hn) r) := by
  have hzero : (Memory.empty n hn).Adds [.zero] ((Memory.empty n hn).append .zero) :=
    (Memory.wellFormed_empty n hn).adds_append (Nat.zero_le _)
  refine (hzero.next fun m he => ?code).next fun m he => ?stack
  case code =>
    have h := p.adds_code he.wellFormed
    rw [he.pageSize] at h
    exact h
  case stack =>
    have h := he.wellFormed.adds_appendRam r
    rw [he.pageSize] at h
    exact h

theorem size_body (p : Program) (hn : 0 < n) (r : Nat) :
    (Memory.empty n hn).pages.size + (p.body n r).length = 1 + p.pages n + r := by
  rw [length_body, Memory.size_empty, Nat.zero_add]

theorem load_of_fits (hn : 0 < n) (h : (1 + p.pages n + r + 1) * n ≤ 2 ^ 32) :
    ∃ image, p.load (.empty n hn) r = .ok image ∧ p.LaidOut n r image := by
  have hbody : ((Memory.empty n hn).pages.size + (p.body n r).length) * n ≤ Memory.addressSpace := by
    rw [size_body]
    exact (Nat.mul_le_mul_right n (Nat.le_succ _)).trans h
  obtain ⟨hnone, he⟩ := (p.adds_layOut hn r).fits hbody
  rw [load]
  generalize p.layOut (.empty n hn) r = b at hnone he
  obtain ⟨m, failure?⟩ := b
  cases hnone
  have hstop : m.stop = (1 + p.pages n + r) * n := by
    rw [he.stop_of_empty, length_body]
  obtain ⟨hok, heg⟩ := he.wellFormed.insert_of_fits (s := .guard) (Nat.zero_le _) (by
    rw [he.size, size_body, he.pageSize]
    exact h)
  have hall := he.trans heg
  have hentry : n ≤ (1 + p.pages n + r) * n := Nat.le_mul_of_pos_left n (by omega)
  rw [Nat.succ_mul] at h
  simp only [hok]
  refine ⟨_, rfl, hall.wellFormed, hall.pageSize, hall.storages, ?entry, ?stack⟩
  case entry =>
    have hstart : (Memory.empty n hn).stop + (Memory.empty n hn).pageSize = n := Nat.zero_add n
    rw [BitVec.toNat_ofNat, hstart, Nat.mod_eq_of_lt (by omega)]
  case stack =>
    rw [BitVec.toNat_ofNat, hstop, Nat.mod_eq_of_lt (by omega)]

theorem load_of_exhausted (hn : 0 < n) (h : 2 ^ 32 < (1 + p.pages n + r + 1) * n) :
    p.load (.empty n hn) r = .error .addressSpaceExhausted := by
  have hadds := p.adds_layOut hn r
  rw [load]
  generalize p.layOut (.empty n hn) r = b at hadds
  obtain ⟨m, failure?⟩ := b
  by_cases hroom : (1 + p.pages n + r) * n ≤ Memory.addressSpace
  · obtain ⟨hnone, he⟩ := hadds.fits (by rwa [size_body])
    cases hnone
    have hguard : m.insert .guard = .error .addressSpaceExhausted := by
      refine he.wellFormed.insert_of_exhausted (Nat.zero_le _) ?_
      rw [he.size, size_body, he.pageSize]
      exact h
    simp only [hguard]
  · have hfail := hadds.exhausted (by
      rw [size_body]
      exact Nat.lt_of_not_le hroom)
    cases hfail
    rfl

namespace LaidOut

variable (hl : p.LaidOut n r image)
include hl

theorem storage_of_stack {i : Nat} (hlow : 1 + p.pages n ≤ i) (hhigh : i < 1 + p.pages n + r) :
    image.memory.storages[i]? = some (.zeroedRam n) := by
  have hlength : ([Storage.zero] ++ (List.range (p.pages n)).map (p.page n)).length = 1 + p.pages n := by
    rw [List.length_append, List.length_map, List.length_range, List.length_singleton]
  rw [hl.storages, List.getElem?_append_left (by rwa [length_body]), body,
    List.getElem?_append_right (by rwa [hlength]), hlength, List.getElem?_replicate, if_pos (by omega)]

theorem storage_of_guard : image.memory.storages[1 + p.pages n + r]? = some .guard := by
  rw [hl.storages, ← length_body, List.getElem?_concat_length]

theorem recalls (hn : 0 < n) (h4 : n % 4 = 0) (ha : a.toNat % 4 = 0)
    (hlow : image.stackPointer.toNat - r * n ≤ a.toNat) (hhigh : a.toNat < image.stackPointer.toNat) :
    image.memory.Recalls a := by
  rw [hl.stackPointer] at hlow hhigh
  rw [Nat.add_mul _ r, Nat.add_sub_cancel, ← Nat.le_div_iff_mul_le hn] at hlow
  rw [← Nat.div_lt_iff_lt_mul hn] at hhigh
  have hfit := mod_add_le hn h4 (a.toNat / 4)
  rw [Nat.mul_div_cancel' (Nat.dvd_of_mod_eq_zero ha)] at hfit
  refine hl.wellFormed.recalls_of_zeroedRam ?_ ?_
  · rw [hl.pageSize]
    exact hl.storage_of_stack hlow hhigh
  · rwa [hl.pageSize]

theorem traps (hlow : image.stackPointer.toNat ≤ a.toNat)
    (hhigh : a.toNat < image.stackPointer.toNat + n) : image.memory.Traps a := by
  rw [hl.stackPointer] at hlow hhigh
  have hplace : a.toNat / n = 1 + p.pages n + r := Nat.div_eq_of_lt_le hlow (by rwa [Nat.succ_mul])
  apply hl.wellFormed.traps_of_guard
  rw [hl.pageSize, hplace]
  exact hl.storage_of_guard

end LaidOut

end Assembly.Program

namespace Console

open Assembly

variable {source : String} {program : Program} {n : Nat}

theorem image_loadSource (h : assemble .base source = .ok program) (m : Memory) (r : Nat) :
    (loadSource m r source).image = (program.load m r).mapError MemoryError.message := by
  rw [loadSource, assembleUntilFailure_of_ok h]

/-- The memory of a source is made exactly when the address space holds a zero page, the pages of its code,
those of the stack and a guard page; there is no other failure. The pages stand in this order, the code is
entered at its begin, and the stack begins below the guard page: every aligned word of the stack can be stored
and read back, and every access to the guard page is a fatal trap. -/
theorem loadSource_laidOut (hn : 0 < n) (h4 : n % 4 = 0) (hp : assemble .base source = .ok program)
    (r : Nat) :
    let c := max 1 (4 * program.words.length ⌈/⌉ n)
    let loading := loadSource (.empty n hn) r source
    ((∃ image, loading.image = .ok image) ↔ (c + r + 2) * n ≤ 2 ^ 32) ∧
    (¬ (c + r + 2) * n ≤ 2 ^ 32 → program.load (.empty n hn) r = .error .addressSpaceExhausted ∧
      loading.image = .error MemoryError.addressSpaceExhausted.message) ∧
    ∀ image, loading.image = .ok image → program.LaidOut n r image ∧
      image.entry.toNat = n ∧ image.stackPointer.toNat = (1 + c + r) * n ∧
      (∀ a : Word, a.toNat % 4 = 0 → image.stackPointer.toNat - r * n ≤ a.toNat →
        a.toNat < image.stackPointer.toNat → image.memory.Recalls a) ∧
      ∀ a : Word, image.stackPointer.toNat ≤ a.toNat → a.toNat < image.stackPointer.toNat + n →
        image.memory.Traps a := by
  intro c loading
  have hc : c = program.pages n := rfl
  have hcount : c + r + 2 = 1 + program.pages n + r + 1 := by omega
  have himage : loading.image = (program.load (.empty n hn) r).mapError MemoryError.message :=
    image_loadSource hp _ r
  rw [himage, hcount]
  by_cases hroom : (1 + program.pages n + r + 1) * n ≤ 2 ^ 32
  · obtain ⟨image, hload, hl⟩ := Program.load_of_fits hn hroom
    rw [hload]
    refine ⟨⟨fun _ => hroom, fun _ => ⟨image, rfl⟩⟩, fun h => absurd hroom h, ?_⟩
    rintro _ ⟨⟩
    exact ⟨hl, hl.entry, hl.stackPointer, fun _ ha hlow hhigh => hl.recalls hn h4 ha hlow hhigh,
      fun _ hlow hhigh => hl.traps hlow hhigh⟩
  · have hload := Program.load_of_exhausted hn (Nat.lt_of_not_le hroom)
    rw [hload]
    refine ⟨⟨?_, fun h => absurd h hroom⟩, fun _ => ⟨rfl, rfl⟩, ?_⟩
    · rintro ⟨_, ⟨⟩⟩
    · rintro _ ⟨⟩

theorem loadSource_laidOut_two_pages :
    let source := "ADDI x1 x0 -5 ; set\n\n  ECALL\nEBREAK;"
    (0 < 8 ∧ 8 % 4 = 0 ∧ ∃ program, assemble .base source = .ok program) ∧
    (∃ image, (loadSource (.empty 8 (by decide)) 2 source).image = .ok image ∧
      image.entry.toNat = 8 ∧ image.stackPointer.toNat = 40 ∧ image.memory.Recalls 36 ∧
      image.memory.Traps 43) ∧
    (loadSource (.empty 0x40000000 (by decide)) 2 source).image =
      .error MemoryError.addressSpaceExhausted.message := by
  intro source
  let program : Program :=
    ⟨source, [⟨1, ⟨0, 13⟩, 0xffb00093⟩, ⟨3, ⟨23, 28⟩, 0x73⟩, ⟨4, ⟨29, 35⟩, 0x100073⟩]⟩
  have hp : assemble .base source = .ok program := by decide +kernel
  obtain ⟨hok, _, hlaid⟩ := loadSource_laidOut (n := 8) (by decide) (by decide) hp 2
  obtain ⟨_, hfull, _⟩ := loadSource_laidOut (n := 0x40000000) (by decide) (by decide) hp 2
  obtain ⟨image, hi⟩ := hok.2 (by decide)
  obtain ⟨_, hentry, hstack, hrecalls, htraps⟩ := hlaid image hi
  have hstack : image.stackPointer.toNat = 40 := hstack.trans (by decide)
  rw [hstack] at hrecalls htraps
  exact ⟨⟨by decide, by decide, program, hp⟩, ⟨image, hi, hentry, hstack,
    hrecalls 36 (by decide) (by decide) (by decide), htraps 43 (by decide) (by decide)⟩,
    (hfull (by decide)).2⟩

end Console

end Hart
