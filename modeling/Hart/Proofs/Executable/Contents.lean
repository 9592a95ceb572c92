import Hart.Proofs.Executable.Layout
import Hart.Proofs.Executable.Segments
import Mathlib

namespace Hart.Executable

def ProgramHeader.Covers (p : ProgramHeader) (a : Nat) : Prop :=
  p.address ≤ a ∧ a < p.address + p.fileSize

instance (p : ProgramHeader) (a : Nat) : Decidable (p.Covers a) := inferInstanceAs (Decidable (_ ∧ _))

def ProgramHeader.Overlaps (p : ProgramHeader) (page : Page) : Prop :=
  ∃ a, (p.address ≤ a ∧ a < p.address + p.memorySize) ∧ page.start ≤ a ∧ a < page.stop

def Header.source? (h : Header) (a : Nat) : Option ProgramHeader :=
  (h.segments.filter (·.Covers a)).getLast?

structure Header.Holds (h : Header) (file : Array Byte) (m : Memory) (a : Word) : Prop where
  file : ∀ p, h.source? a.toNat = some p →
    ∃ b, file[p.offset + (a.toNat - p.address)]? = some b ∧ m.peek .byte a = .ok (b.setWidth 32)
  zero : h.source? a.toNat = none → m.peek .byte a = .ok 0

/-- One writable segment makes a page RAM, other segments make it an image, and a page without segments
is zero. -/
structure Header.Backs (h : Header) (page : Page) : Prop where
  ram : (∃ p ∈ h.segments, p.Overlaps page ∧ p.writable = true) → ∃ bytes, page.storage = .ram bytes
  image : (∃ p ∈ h.segments, p.Overlaps page) →
    (∀ p ∈ h.segments, p.Overlaps page → p.writable = false) → ∃ bytes, page.storage = .image bytes
  zero : (∀ p ∈ h.segments, ¬ p.Overlaps page) → page.storage = .zero

variable {file : Array Byte} {p : ProgramHeader} {h : Header} {n k a : Nat} {image : Image}

theorem ProgramHeader.Sound.size_segment (hs : p.Sound file.size) :
    (p.segment file).data.size = p.fileSize := by
  have hfile := hs.inFile
  rw [segment, Array.size_extract]
  omega

theorem ProgramHeader.Sound.byte?_segment (hs : p.Sound file.size) (a : Nat) :
    (p.segment file).byte? a =
      if p.Covers a then file[p.offset + (a - p.address)]? else none := by
  have hfile := hs.inFile
  rw [Segment.byte?, segment]
  dsimp only
  rw [Array.getElem?_extract]
  unfold Covers
  grind

namespace Header

theorem overlaps_segment_iff (file : Array Byte) {page : Page} (hp : p ∈ h.segments)
    (hpage : page.start < page.stop) :
    (p.segment file).overlaps page.start page.stop = true ↔ p.Overlaps page := by
  have hpos : 0 < p.memorySize := of_decide_eq_true (List.mem_filter.1 hp).2
  rw [Segment.overlaps, Bool.and_eq_true, decide_eq_true_eq, decide_eq_true_eq]
  change p.address < page.stop ∧ page.start < p.address + p.memorySize ↔ _
  constructor
  · intro ho
    exact ⟨max p.address page.start, by omega, by omega⟩
  · rintro ⟨a, _, _⟩
    omega

theorem byte?_plan (hs : ∀ p ∈ h.segments, p.Sound file.size) (a : Nat) :
    (h.plan file).byte? a = (h.source? a).bind fun p => file[p.offset + (a - p.address)]? := by
  have hsome : ∀ p ∈ h.segments, ((p.segment file).byte? a).isSome = decide (p.Covers a) := by
    intro p hp
    rw [Bool.eq_iff_iff, Segment.isSome_byte?_iff, decide_eq_true_eq, (hs p hp).size_segment]
    exact Iff.rfl
  have hmap : (h.plan file).byte? a =
      h.segments.reverse.findSome? fun p => (p.segment file).byte? a := by
    rw [Plan.byte?, plan, ← List.map_reverse, List.findSome?_map]
    rfl
  rw [hmap, findSome?_reverse_eq hsome, source?]
  cases hlast : (h.segments.filter (·.Covers a)).getLast? with
  | none => rfl
  | some p =>
    obtain ⟨hp, hc⟩ := List.mem_filter.1 (List.mem_of_getLast? hlast)
    rw [Option.bind_some, Option.bind_some, (hs p hp).byte?_segment, if_pos (of_decide_eq_true hc)]

theorem sound_plan (hs : ∀ p ∈ h.segments, p.Sound file.size) : (h.plan file).Sound := by
  intro s hsm
  obtain ⟨p, hp, rfl⟩ := List.mem_map.1 hsm
  rw [(hs p hp).size_segment]
  exact Nat.add_le_add_left (hs p hp).data _

theorem Loadable.sound_segments (hl : h.Loadable file.size) : ∀ p ∈ h.segments, p.Sound file.size :=
  fun p hp => hl.sound p (List.mem_filter.1 hp).1

theorem exists_of_source? (hs : ∀ p ∈ h.segments, p.Sound file.size) (hp : h.source? a = some p) :
    ∃ b, file[p.offset + (a - p.address)]? = some b := by
  obtain ⟨hmem, hc⟩ := List.mem_filter.1 (List.mem_of_getLast? hp)
  obtain ⟨hle, hlt⟩ := of_decide_eq_true hc
  have hfile := (hs p hmem).inFile
  exact ⟨_, Array.getElem?_eq_getElem (by omega)⟩

theorem isLeast_pages (h : Header) (hn : 0 < n) : IsLeast {e | n ∣ e ∧ h.top ≤ e} (h.pages n * n) := by
  have hlt := mul_lt_iff_lt_ceil hn
  constructor
  · refine ⟨Nat.dvd_mul_left n _, ?_⟩
    have := hlt (h.pages n) h.top
    rw [pages] at this ⊢
    omega
  · rintro e ⟨⟨c, rfl⟩, hc⟩
    rw [Nat.mul_comm n c] at hc ⊢
    refine Nat.mul_le_mul_right n ?_
    have := hlt c h.top
    rw [pages]
    omega

theorem LaidOut.pageAt? (hl : h.LaidOut file n k image) {a : Word} (ha : a.toNat < h.pages n * n) :
    ∃ page, image.memory.PageOf a page ∧ page.start = a.toNat / n * n ∧
      page.stop = (a.toNat / n + 1) * n ∧ page.storage = (h.plan file).page n (a.toNat / n) := by
  have hn : 0 < n := hl.pageSize ▸ image.memory.pageSize_pos
  have hi : a.toNat / n < h.pages n := (Nat.div_lt_iff_lt_mul hn).2 ha
  have hstorage : image.memory.storages[a.toNat / n]? = some ((h.plan file).page n (a.toNat / n)) := by
    rw [hl.storages, List.append_assoc, List.getElem?_append_left (by simpa using hi),
      List.getElem?_map, List.getElem?_range hi, Option.map_some]
  rw [Memory.storages, List.getElem?_map, Option.map_eq_some_iff] at hstorage
  obtain ⟨page, hpage, hs⟩ := hstorage
  have hat : image.memory.pageAt? a = some page := by
    rw [Memory.pageAt?, hl.pageSize, ← Array.getElem?_toList]
    exact hpage
  have hfits := (hl.wellFormed.fits_of_pageAt? hat).2
  rw [hl.pageSize] at hfits
  exact ⟨page, hl.wellFormed.pageOf_iff.2 hat, hfits.start, hfits.stop, hs⟩

theorem LaidOut.peek (hl : h.LaidOut file n k image)
    (hs : ∀ p ∈ h.segments, p.Sound file.size) {a : Word} (ha : a.toNat < h.pages n * n) :
    image.memory.peek .byte a = .ok ((((h.plan file).byte? a.toNat).getD 0).setWidth 32) := by
  obtain ⟨page, hpage, hstart, hstop, hstorage⟩ := hl.pageAt? ha
  have hc := hpage.2
  rw [Page.contains, Bool.and_eq_true, decide_eq_true_eq, decide_eq_true_eq, hstart, hstop] at hc
  rw [hl.wellFormed.peek_of_pageOf hpage, hstorage, hstart]
  exact Plan.peek_storage (sound_plan hs) hc.1 hc.2 a

theorem LaidOut.holds (hl : h.LaidOut file n k image)
    (hs : ∀ p ∈ h.segments, p.Sound file.size) {a : Word} (ha : a.toNat < h.pages n * n) :
    h.Holds file image.memory a := by
  have hpeek := hl.peek hs ha
  rw [byte?_plan hs] at hpeek
  constructor
  · intro p hp
    obtain ⟨b, hb⟩ := exists_of_source? hs hp
    rw [hp, Option.bind_some, hb] at hpeek
    exact ⟨b, hb, hpeek⟩
  · intro hnone
    rw [hnone] at hpeek
    exact hpeek

theorem backs_of_storage (file : Array Byte) {page : Page} (hpage : page.start < page.stop)
    (hs : page.storage = (h.plan file).storage page.start page.stop) : h.Backs page := by
  have hiff (p) (hp : p ∈ h.segments) := overlaps_segment_iff file hp hpage
  constructor
  · rintro ⟨p, hp, ho, hw⟩
    rw [hs]
    exact Plan.storage_of_writable ⟨_, List.mem_map_of_mem hp, (hiff p hp).2 ho, hw⟩
  · rintro ⟨p, hp, ho⟩ hn
    rw [hs]
    refine Plan.storage_of_not_writable ⟨_, List.mem_map_of_mem hp, (hiff p hp).2 ho⟩ ?_
    exact List.forall_mem_map.2 fun q hq hqo => hn q hq ((hiff q hq).1 hqo)
  · intro hn
    rw [hs]
    refine Plan.storage_of_none (List.forall_mem_map.2 fun q hq => ?_)
    exact Bool.eq_false_iff.2 (mt (hiff q hq).1 (hn q hq))

theorem LaidOut.pages_le (hl : h.LaidOut file n k image) : h.pages n * n ≤ 2 ^ 32 := by
  have hfits := hl.wellFormed.fits
  rw [← Memory.length_storages, hl.storages, hl.pageSize, List.append_assoc, List.length_append,
    List.length_map, List.length_range] at hfits
  exact (Nat.mul_le_mul_right n (Nat.le_add_right _ _)).trans hfits

theorem LaidOut.exists_buffer? (hl : h.LaidOut file n k image)
    (hs : ∀ p ∈ h.segments, p.Sound file.size) {i : Nat} (hi : i < h.pages n) :
    ∃ buffer, (h.plan file).buffer? (i * n) ((i + 1) * n) = some buffer ∧
      buffer.size = n ∧ ∀ j < n, ∃ b, buffer[j]? = some b ∧
        image.memory.peek .byte (BitVec.ofNat 32 (i * n + j)) = .ok (b.setWidth 32) := by
  obtain ⟨buffer, hb, hsize, hbytes⟩ :=
    (h.plan file).exists_buffer? (sound_plan hs) (i * n) ((i + 1) * n)
  rw [Nat.succ_mul, Nat.add_sub_cancel_left] at hsize
  have hle : (i + 1) * n ≤ h.pages n * n := Nat.mul_le_mul_right n hi
  have htop := hl.pages_le
  rw [Nat.succ_mul] at hle hbytes
  refine ⟨buffer, hb, hsize, fun j hj => ⟨((h.plan file).byte? (i * n + j)).getD 0, ?_, ?_⟩⟩
  · have hbyte := hbytes (i * n + j) (Nat.le_add_right _ _) (Nat.add_lt_add_left hj _)
    rwa [Nat.add_sub_cancel_left] at hbyte
  · have ha : (BitVec.ofNat 32 (i * n + j)).toNat = i * n + j := by
      rw [BitVec.toNat_ofNat, Nat.mod_eq_of_lt (by omega)]
    have hpeek := hl.peek hs (a := BitVec.ofNat 32 (i * n + j)) (by omega)
    rwa [ha] at hpeek

end Header

/-- The memory of a loaded file holds, at every address below the end of the pages of its segments, the byte
of the last segment that has one there, and zero where none has. One writable segment makes a page RAM,
others make it an image, and a page without segments is zero. Copying the data page by page stays within
bounds. -/
theorem Reading.contents_of_load (file : Array Byte) (h? : Option Header) {n : Nat} (hn : 0 < n)
    (k : Nat) {image : Image} (hi : (Reading.ofHeader file h?).load (.empty n hn) k = .ok image) :
    ∃ h, h? = some h ∧ IsLeast {e | n ∣ e ∧ h.top ≤ e} (h.pages n * n) ∧
      (∀ a : Word, a.toNat < h.pages n * n → h.Holds file image.memory a ∧
        ∃ page, image.memory.PageOf a page ∧ h.Backs page) ∧
      ∀ i < h.pages n, ∃ buffer, (h.plan file).buffer? (i * n) ((i + 1) * n) = some buffer ∧
        buffer.size = n ∧ ∀ j < n, ∃ b, buffer[j]? = some b ∧
          image.memory.peek .byte (BitVec.ofNat 32 (i * n + j)) = .ok (b.setWidth 32) := by
  have hv := Header.verdict_load file h? hn k
  rw [hi] at hv
  cases hv with
  | @loaded h _ hl _ hlaid =>
    have hs := hl.sound_segments
    refine ⟨h, rfl, h.isLeast_pages hn, fun a ha => ⟨hlaid.holds hs ha, ?_⟩,
      fun i hi => hlaid.exists_buffer? hs hi⟩
    obtain ⟨page, hpage, hstart, hstop, hstorage⟩ := hlaid.pageAt? ha
    refine ⟨page, hpage, Header.backs_of_storage file ?_ ?_⟩
    · rw [hstart, hstop, Nat.succ_mul]
      omega
    · rw [hstart, hstop]
      exact hstorage

theorem Reading.contents_of_load_sample : 0 < 4 ∧
    ∃ image, (read sample).load (.empty 4 (by decide)) 1 = .ok image ∧
      image.memory.peek .byte 4 = .ok 9 ∧ image.memory.peek .byte 5 = .ok 4 ∧
      image.memory.peek .byte 8 = .ok 0 ∧
      (∃ page bytes, image.memory.PageOf 3 page ∧ page.storage = .image bytes) ∧
      ∃ page bytes, image.memory.PageOf 5 page ∧ page.storage = .ram bytes := by
  obtain ⟨image, hi, hlaid⟩ := Header.exists_load_of_fits (n := 4) (k := 1) (by decide) loadable_sample
    (.inr (by decide))
  have hi : (read sample).load (.empty 4 (by decide)) 1 = .ok image := by
    rw [read, read?_sample]
    exact hi
  obtain ⟨h, hh, -, hbytes, -⟩ := Reading.contents_of_load sample (Header.read? sample) (by decide) 1 hi
  cases read?_sample.symm.trans hh
  have hpages : sampleHeader.pages 4 = 3 := by decide
  rw [hpages] at hbytes
  obtain ⟨h4, -⟩ := hbytes 4 (by decide)
  obtain ⟨h5, page5, hpage5, hback5⟩ := hbytes 5 (by decide)
  obtain ⟨h8, -⟩ := hbytes 8 (by decide)
  obtain ⟨-, page3, hpage3, hback3⟩ := hbytes 3 (by decide)
  obtain ⟨b4, hb4, hp4⟩ := h4.file ⟨1, 6, 120, 4, 1, 7⟩ (by decide)
  obtain ⟨b5, hb5, hp5⟩ := h5.file ⟨1, 5, 116, 2, 4, 4⟩ (by decide)
  have hb4' : sample[120]? = some 9 := by decide +kernel
  have hb5' : sample[119]? = some 4 := by decide +kernel
  cases hb4'.symm.trans hb4
  cases hb5'.symm.trans hb5
  have hc3 := hpage3.2
  have hc5 := hpage5.2
  have hstop3 := (hlaid.wellFormed.fits_of_pageAt? (hlaid.wellFormed.pageOf_iff.1 hpage3)).2.stop
  rw [hlaid.pageSize] at hstop3
  rw [Page.contains, Bool.and_eq_true, decide_eq_true_eq, decide_eq_true_eq] at hc3 hc5
  have hread : ∀ p ∈ sampleHeader.segments, p.Overlaps page3 → p.writable = false := by
    have hsegments : sampleHeader.segments = [⟨1, 5, 116, 2, 4, 4⟩, ⟨1, 6, 120, 4, 1, 7⟩] := rfl
    rw [hsegments]
    refine List.forall_mem_cons.2 ⟨fun _ => rfl, List.forall_mem_singleton.2 ?_⟩
    rintro ⟨a, ⟨ha, -⟩, -, hlt⟩
    exact absurd (Nat.lt_of_le_of_lt ha (hlt.trans_eq hstop3)) (by decide)
  obtain ⟨bytes3, hs3⟩ := hback3.image ⟨⟨1, 5, 116, 2, 4, 4⟩, by decide, 3, by decide, hc3⟩ hread
  obtain ⟨bytes5, hs5⟩ := hback5.ram ⟨⟨1, 6, 120, 4, 1, 7⟩, by decide, ⟨5, by decide, hc5⟩, by decide⟩
  exact ⟨by decide, image, hi, hp4, hp5, h8.zero (by decide), ⟨page3, bytes3, hpage3, hs3⟩,
    page5, bytes5, hpage5, hs5⟩

end Hart.Executable
