import Hart.Executable.Layout
import Hart.Proofs.Memory.Store
import Mathlib

namespace Hart

theorem findSome?_filterMap {f : α → Option β} {g : β → Option γ} (l : List α) :
    (l.filterMap f).findSome? g = l.findSome? fun x => (f x).bind g := by
  rw [← List.head?_filterMap, ← List.head?_filterMap, List.filterMap_filterMap]

theorem findSome?_filter_of_isSome {f : α → Option β} {p : α → Bool} {l : List α}
    (h : ∀ x ∈ l, (f x).isSome → p x = true) : (l.filter p).findSome? f = l.findSome? f := by
  rw [← List.head?_filterMap, ← List.head?_filterMap, List.filterMap_filter]
  refine congrArg List.head? (List.filterMap_congr fun x hx => ?_)
  split
  · rfl
  · next hp => exact (Option.not_isSome_iff_eq_none.1 (mt (h x hx) hp)).symm

theorem findSome?_reverse_eq {f : α → Option β} {p : α → Bool} {l : List α}
    (h : ∀ x ∈ l, (f x).isSome = p x) : l.reverse.findSome? f = (l.filter p).getLast?.bind f := by
  induction l using List.reverseRecOn with
  | nil => rfl
  | append_singleton l x ih =>
    have ih := ih fun y hy => h y (List.mem_append_left _ hy)
    have hx := h x (List.mem_append_right l List.mem_cons_self)
    rw [List.reverse_append, List.reverse_singleton, List.singleton_append, List.findSome?_cons,
      List.filter_append, List.filter_cons, List.filter_nil, ← hx]
    cases hf : f x with
    | none => simpa using ih
    | some b => simp [hf]

namespace Executable

def slice? (bytes : Array Byte) (first last : Nat) : Option (Array Byte) :=
  if first ≤ last ∧ last ≤ bytes.size then some (bytes.extract first last) else none

def overwrite? (buffer : Array Byte) (first last : Nat) (bytes : Array Byte) : Option (Array Byte) :=
  if first ≤ last ∧ last ≤ buffer.size ∧ bytes.size = last - first then
    some (buffer.extract 0 first ++ bytes ++ buffer.extract last buffer.size)
  else none

theorem size_overwrite? {buffer bytes buffer' : Array Byte} {first last : Nat}
    (h : overwrite? buffer first last bytes = some buffer') : buffer'.size = buffer.size := by
  rw [overwrite?] at h
  split at h
  · next hb =>
    cases h
    rw [Array.size_append, Array.size_append, Array.size_extract, Array.size_extract]
    omega
  · cases h

theorem getElem?_overwrite? {buffer bytes buffer' : Array Byte} {first last : Nat}
    (h : overwrite? buffer first last bytes = some buffer') (i : Nat) : buffer'[i]? =
      if first ≤ i ∧ i < last then bytes[i - first]? else buffer[i]? := by
  rw [overwrite?] at h
  split at h
  · next hb =>
    cases h
    obtain ⟨hle, hlast, hsize⟩ := hb
    rw [Array.getElem?_append, Array.getElem?_append, Array.size_append, Array.getElem?_extract,
      Array.getElem?_extract, Array.size_extract, hsize]
    simp only [Nat.sub_zero, Nat.zero_add, Nat.min_self, Nat.min_eq_left (hle.trans hlast)]
    grind
  · cases h

namespace Segment

def byte? (s : Segment) (a : Nat) : Option Byte := if s.start ≤ a then s.data[a - s.start]? else none

def copy? (s : Segment) (start stop : Nat) (buffer : Array Byte) : Option (Array Byte) :=
  let first := max s.start start
  let last := min (s.start + s.data.size) stop
  if first < last then
    (slice? s.data (first - s.start) (last - s.start)).bind
      (overwrite? buffer (first - start) (last - start))
  else some buffer

variable {s : Segment} {start stop a : Nat} {b : Byte}

theorem isSome_byte?_iff : (s.byte? a).isSome ↔ s.start ≤ a ∧ a < s.start + s.data.size := by
  rw [byte?]
  split
  · rw [isSome_getElem?]
    omega
  · simp
    omega

theorem run?_byte? (h : start ≤ a) (h' : a < stop) :
    (s.run? start stop).bind (·.byte? (a - start)) = s.byte? a := by
  rw [run?]
  split
  · next hlt =>
    rw [Option.bind_some, Run.byte?, byte?]
    dsimp only
    rw [Array.getElem?_extract]
    grind
  · next hempty =>
    symm
    rw [Option.bind_none, ← Option.not_isSome_iff_eq_none, isSome_byte?_iff]
    omega

theorem overlaps_of_byte? (h : start ≤ a) (h' : a < stop) (hs : s.start + s.data.size ≤ s.stop)
    (hb : (s.byte? a).isSome) : s.overlaps start stop = true := by
  rw [isSome_byte?_iff] at hb
  rw [overlaps, Bool.and_eq_true, decide_eq_true_eq, decide_eq_true_eq]
  omega

theorem exists_copy? {buffer : Array Byte} (s : Segment) (hb : buffer.size = stop - start) :
    ∃ buffer', s.copy? start stop buffer = some buffer' ∧ buffer'.size = stop - start ∧
      ∀ a, start ≤ a → a < stop → buffer'[a - start]? = (s.byte? a).or buffer[a - start]? := by
  rw [copy?]
  split
  · next hlt =>
    generalize hfirst : max s.start start = first at *
    generalize hlast : min (s.start + s.data.size) stop = last at *
    have hslice : slice? s.data (first - s.start) (last - s.start) =
        some (s.data.extract (first - s.start) (last - s.start)) := if_pos ⟨by omega, by omega⟩
    obtain ⟨buffer', hover⟩ : ∃ buffer', overwrite? buffer (first - start) (last - start)
        (s.data.extract (first - s.start) (last - s.start)) = some buffer' :=
      ⟨_, if_pos ⟨by omega, by omega, by rw [Array.size_extract]; omega⟩⟩
    refine ⟨buffer', ?_, (size_overwrite? hover).trans hb, fun a h h' => ?_⟩
    · rw [hslice, Option.bind_some, hover]
    · rw [getElem?_overwrite? hover, Array.getElem?_extract, byte?]
      grind
  · next hempty =>
    refine ⟨buffer, rfl, hb, fun a h h' => ?_⟩
    have hn : s.byte? a = none := by
      rw [← Option.not_isSome_iff_eq_none, isSome_byte?_iff]
      omega
    rw [hn, Option.none_or]

end Segment

namespace Plan

variable {p : Plan} {start stop a : Nat}

def byte? (p : Plan) (a : Nat) : Option Byte := p.segments.reverse.findSome? (·.byte? a)

def buffer? (p : Plan) (start stop : Nat) : Option (Array Byte) :=
  (p.segments.filter (·.overlaps start stop)).foldlM (fun buffer s => s.copy? start stop buffer)
    (Array.replicate (stop - start) 0)

def Sound (p : Plan) : Prop := ∀ s ∈ p.segments, s.start + s.data.size ≤ s.stop

theorem foldlM_copy? (ss : List Segment) (buffer : Array Byte) (hb : buffer.size = stop - start) :
    ∃ buffer', ss.foldlM (fun buffer s => s.copy? start stop buffer) buffer = some buffer' ∧
      buffer'.size = stop - start ∧ ∀ a, start ≤ a → a < stop →
        buffer'[a - start]? = (ss.reverse.findSome? (·.byte? a)).or buffer[a - start]? := by
  induction ss generalizing buffer with
  | nil => exact ⟨buffer, rfl, hb, fun a _ _ => rfl⟩
  | cons s ss ih =>
    obtain ⟨buffer₁, h₁, hb₁, hs₁⟩ := s.exists_copy? hb
    obtain ⟨buffer₂, h₂, hb₂, hs₂⟩ := ih buffer₁ hb₁
    refine ⟨buffer₂, ?_, hb₂, fun a h h' => ?_⟩
    · rw [List.foldlM_cons, h₁]
      exact h₂
    · rw [hs₂ a h h', hs₁ a h h', List.reverse_cons, List.findSome?_append, Option.or_assoc]
      congr 2
      rw [List.findSome?_cons, List.findSome?_nil]
      cases s.byte? a <;> rfl

theorem findSome?_touching (hp : p.Sound) (h : start ≤ a) (h' : a < stop) :
    (p.segments.filter (·.overlaps start stop)).reverse.findSome? (·.byte? a) = p.byte? a := by
  rw [← List.filter_reverse]
  refine findSome?_filter_of_isSome fun s hs hb => ?_
  exact Segment.overlaps_of_byte? h h' (hp s (List.mem_reverse.1 hs)) hb

theorem exists_buffer? (hp : p.Sound) (start stop : Nat) :
    ∃ buffer, p.buffer? start stop = some buffer ∧ buffer.size = stop - start ∧
      ∀ a, start ≤ a → a < stop → buffer[a - start]? = some ((p.byte? a).getD 0) := by
  obtain ⟨buffer, hb, hsize, hbytes⟩ := foldlM_copy? (p.segments.filter (·.overlaps start stop))
    (Array.replicate (stop - start) 0) Array.size_replicate
  refine ⟨buffer, hb, hsize, fun a h h' => ?_⟩
  rw [hbytes a h h', findSome?_touching hp h h', Array.getElem?_replicate, if_pos (by omega)]
  cases p.byte? a <;> rfl

theorem size_ofRuns (n : Nat) (runs : List Run) : (ByteStore.ofRuns n runs).size = n := rfl

theorem get_ofRuns (n : Nat) (runs : List Run) (i : Nat) :
    (ByteStore.ofRuns n runs).get i = (runs.findSome? (·.byte? i)).getD 0 := by
  simp [ByteStore.get, ByteStore.ofRuns]

theorem peek_storage (hp : p.Sound) (h : start ≤ a) (h' : a < stop) (w : Word) :
    (p.storage start stop).peek .byte (a - start) w = .ok (((p.byte? a).getD 0).setWidth 32) := by
  have htouching := findSome?_touching hp h h'
  rw [storage]
  split
  · next hempty =>
    rw [List.isEmpty_iff.1 hempty] at htouching
    rw [← htouching]
    rfl
  · have hget : (ByteStore.ofRuns (stop - start) ((p.segments.filter
        (·.overlaps start stop)).reverse.filterMap (·.run? start stop))).read .byte (a - start) =
        ((p.byte? a).getD 0).setWidth 32 := by
      rw [ByteStore.read_byte, size_ofRuns, if_pos (by omega), get_ofRuns, findSome?_filterMap]
      simp only [Segment.run?_byte? h h']
      rw [htouching]
    split <;> exact congrArg Except.ok hget

theorem touching_eq_nil_iff : (p.segments.filter (·.overlaps start stop)).isEmpty = true ↔
    ∀ s ∈ p.segments, s.overlaps start stop = false := by
  simp [List.isEmpty_iff, List.filter_eq_nil_iff]

theorem touching_of_overlaps {s : Segment} (hs : s ∈ p.segments) (ho : s.overlaps start stop = true) :
    ¬ (p.segments.filter (·.overlaps start stop)).isEmpty = true := by
  intro h
  rw [touching_eq_nil_iff.1 h s hs] at ho
  cases ho

theorem storage_of_writable (h : ∃ s ∈ p.segments, s.overlaps start stop = true ∧ s.writable = true) :
    ∃ bytes, p.storage start stop = .ram bytes := by
  obtain ⟨s, hs, ho, hw⟩ := h
  have hany : (p.segments.filter (·.overlaps start stop)).any Segment.writable = true :=
    List.any_eq_true.2 ⟨s, List.mem_filter.2 ⟨hs, ho⟩, hw⟩
  rw [storage, if_neg (touching_of_overlaps hs ho), if_pos hany]
  exact ⟨_, rfl⟩

theorem storage_of_not_writable (h : ∃ s ∈ p.segments, s.overlaps start stop = true)
    (hw : ∀ s ∈ p.segments, s.overlaps start stop = true → s.writable = false) :
    ∃ bytes, p.storage start stop = .image bytes := by
  obtain ⟨s, hs, ho⟩ := h
  have hany : ¬ (p.segments.filter (·.overlaps start stop)).any Segment.writable = true := by
    rw [List.any_eq_true]
    rintro ⟨t, ht, hwt⟩
    obtain ⟨hmem, hto⟩ := List.mem_filter.1 ht
    rw [hw t hmem hto] at hwt
    cases hwt
  rw [storage, if_neg (touching_of_overlaps hs ho), if_neg hany]
  exact ⟨_, rfl⟩

theorem storage_of_none (h : ∀ s ∈ p.segments, s.overlaps start stop = false) :
    p.storage start stop = .zero :=
  if_pos (touching_eq_nil_iff.2 h)

end Plan

end Executable

end Hart
