import Hart.Text.Fields
import Hart.Proofs.Text.Fields
import Mathlib

namespace Hart.Text

variable {s t line lead trail : List Char}

theorem byteLength_eq (s : List Char) : byteLength s = String.utf8Len s := by
  induction s with
  | nil => rfl
  | cons c s ih => rw [byteLength_cons, String.utf8Len_cons, ih, Nat.add_comm]

theorem byteLength_pos (h : s ≠ []) : 0 < byteLength s := by
  cases s with
  | nil => exact absurd rfl h
  | cons c s =>
    have := c.utf8Size_pos
    rw [byteLength_cons]
    omega

theorem byteLength_toList (s : String) : byteLength s.toList = s.utf8ByteSize := by
  rw [byteLength_eq, ← String.utf8ByteSize_ofList, String.ofList_toList]

theorem Span.slice_append (before text after : List Char) :
    Span.slice ⟨byteLength before, byteLength before + byteLength text⟩
      (String.ofList (before ++ text ++ after)) = String.ofList text := by
  rw [slice, byteLength_eq, byteLength_eq, String.extract_of_valid]

theorem isValid_byteLength (before after : List Char) :
    (⟨byteLength before⟩ : String.Pos.Raw).IsValid (String.ofList (before ++ after)) := by
  rw [String.Pos.Raw.isValid_iff_exists_append]
  exact ⟨String.ofList before, String.ofList after, String.ofList_append,
    by rw [byteLength_eq, String.rawEndPos_ofList]⟩

theorem lines_of_not_mem (h : '\n' ∉ line) : lines line = [line] :=
  fields_of_forall fun c hc => by
    rw [beq_eq_false_iff_ne]
    rintro rfl
    exact h hc

theorem lines_append (s t : List Char) : lines (s ++ '\n' :: t) = lines s ++ lines t :=
  have h : ('\n' == '\n') = true := rfl
  @fields_append_sep (· == '\n') '\n' h s t

@[elab_as_elim]
theorem lines_induction {P : List Char → Prop} (last : ∀ line, '\n' ∉ line → P line)
    (more : ∀ line rest, '\n' ∉ line → P rest → P (line ++ '\n' :: rest)) (s : List Char) : P s := by
  induction hn : s.length using Nat.strong_induction_on generalizing s with
  | h n ih =>
    obtain ⟨line, hline, hs⟩ := exists_field (· == '\n') s
    have hmem : '\n' ∉ line := fun h => by simpa using hline _ h
    rcases hs with rfl | ⟨c, rest, hc, rfl⟩
    · exact last s hmem
    · obtain rfl := eq_of_beq hc
      refine more line rest hmem (ih rest.length ?_ rest rfl)
      rw [← hn, List.length_append, List.length_cons]
      omega

def Trimmed (s : List Char) : Prop :=
  (∀ c ∈ s.head?, isBlank c = false) ∧ ∀ c ∈ s.getLast?, isBlank c = false

theorem trim_eq (s : List Char) : trim s = (trimStart s).rdropWhile isBlank := rfl

theorem trimmed_trim (s : List Char) : Trimmed (trim s) := by
  constructor
  · intro c hc
    obtain ⟨u, hu⟩ : trim s <+: trimStart s := List.rdropWhile_prefix _ _
    have hhead : (s.dropWhile isBlank).head? = some c := by
      rw [← trimStart, ← hu, List.head?_append, Option.mem_def.1 hc, Option.some_or]
    have hnot := List.head?_dropWhile_not isBlank s
    rwa [hhead] at hnot
  · intro c hc
    obtain ⟨u, hu⟩ := List.getLast?_eq_some_iff.1 hc
    have hnot := List.rdropWhile_last_not isBlank (trimStart s)
    simp only [← trim_eq, hu, List.getLast_append_singleton] at hnot
    simpa using hnot

theorem exists_trail (s : List Char) :
    ∃ trail, s = s.takeWhile isBlank ++ trim s ++ trail ∧ ∀ c ∈ trail, isBlank c = true := by
  refine ⟨(trimStart s).rtakeWhile isBlank, ?_, fun c hc => List.mem_rtakeWhile_imp hc⟩
  rw [trim_eq, List.append_assoc, List.rdropWhile_append_rtakeWhile, trimStart,
    List.takeWhile_append_dropWhile]

section Trimmed

variable (hlead : ∀ c ∈ lead, isBlank c = true) (ht : Trimmed t) (hne : t ≠ [])
  (htrail : ∀ c ∈ trail, isBlank c = true)
include hlead ht hne

theorem takeWhile_isBlank_append : (lead ++ (t ++ trail)).takeWhile isBlank = lead := by
  cases t with
  | nil => exact absurd rfl hne
  | cons c t =>
    have hc : isBlank c = false := ht.1 c rfl
    rw [List.takeWhile_append_of_pos hlead]
    simp [hc]

include htrail in
theorem trim_append : trim (lead ++ (t ++ trail)) = t := by
  have hstart : trimStart (lead ++ (t ++ trail)) = t ++ trail := by
    rw [trimStart, List.dropWhile_append_of_pos hlead]
    cases t with
    | nil => exact absurd rfl hne
    | cons c t => simp [ht.1 c rfl]
  have hlast : t.reverse.dropWhile isBlank = t.reverse := by
    cases hr : t.reverse with
    | nil => rfl
    | cons d u =>
      have hd : isBlank d = false := ht.2 d (by rw [← List.head?_reverse, hr]; rfl)
      simp [hd]
  rw [trim, hstart, trimEnd, List.reverse_append, List.dropWhile_append_of_pos (by simpa using htrail),
    hlast, List.reverse_reverse]

end Trimmed

end Hart.Text
