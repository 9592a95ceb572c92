import Hart.Text.Fields
import Mathlib

namespace Hart.Text

def IsWord (w : List Char) : Prop := w ≠ [] ∧ ∀ c ∈ w, isSeparator c = false

instance (w : List Char) : Decidable (IsWord w) :=
  decidable_of_iff ((!w.isEmpty && w.all fun c => !isSeparator c) = true) (by simp [IsWord])

theorem fields_of_forall {sep : Char → Bool} {s : List Char} (h : ∀ c ∈ s, sep c = false) :
    fields sep s = [s] := by
  induction s with
  | nil => rfl
  | cons c s ih =>
    have hs := ih fun d hd => h d (List.mem_cons_of_mem _ hd)
    rw [fields] at hs ⊢
    rw [List.foldr_cons, hs, h c List.mem_cons_self]
    rfl

@[simp] theorem tokens_nil : tokens [] = [] := by
  simp [tokens]

theorem IsWord.tokens {w : List Char} (h : IsWord w) : tokens w = [w] := by
  rw [Text.tokens, fields_of_forall h.2]
  simp [h.1]

theorem isSeparator_blank : isSeparator ' ' = true := by
  decide

theorem tokens_intercalate {ws : List (List Char)} (h : ∀ w ∈ ws, IsWord w) :
    tokens ([' '].intercalate ws) = ws := by
  induction ws with
  | nil => exact tokens_nil
  | cons w ws ih =>
    have hw := (h w List.mem_cons_self).tokens
    have hws := ih fun v hv => h v (List.mem_cons_of_mem _ hv)
    cases ws with
    | nil => rw [List.intercalate_singleton, hw]
    | cons v ws =>
      rw [List.intercalate_cons_cons, List.append_assoc, List.singleton_append,
        tokens_append_sep isSeparator_blank, hw, hws]
      rfl

theorem tokens_line {ws : List String} (h : ∀ w ∈ ws, IsWord w.toList) :
    (tokens (" ".intercalate ws).toList).map String.ofList = ws := by
  have hws : ∀ w ∈ ws.map String.toList, IsWord w := by
    simpa using h
  rw [String.toList_intercalate]
  change (tokens ([' '].intercalate (ws.map String.toList))).map String.ofList = ws
  rw [tokens_intercalate hws, List.map_map]
  simp

/-- `ws` are the longest runs of characters of a text that are not separators, in order. -/
inductive Runs : List Char → List (List Char) → Prop
  | nil : Runs [] []
  | skip : isSeparator c = true → Runs s ws → Runs (c :: s) ws
  | last : IsWord w → Runs w [w]
  | word : IsWord w → isSeparator c = true → Runs s ws → Runs (w ++ c :: s) (w :: ws)

variable {s : List Char} {ws : List (List Char)}

theorem Runs.tokens_eq (h : Runs s ws) : tokens s = ws := by
  induction h with
  | nil => exact tokens_nil
  | skip hc _ ih =>
    rw [← ih]
    exact tokens_append_sep hc [] _
  | last hw => exact hw.tokens
  | word hw hc _ ih => rw [tokens_append_sep hc, hw.tokens, ih, List.singleton_append]

theorem exists_field (sep : Char → Bool) (s : List Char) : ∃ w, (∀ c ∈ w, sep c = false) ∧
    (s = w ∨ ∃ c rest, sep c = true ∧ s = w ++ c :: rest) := by
  induction s with
  | nil => exact ⟨[], nofun, .inl rfl⟩
  | cons d s ih =>
    cases hd : sep d with
    | true => exact ⟨[], nofun, .inr ⟨d, s, hd, rfl⟩⟩
    | false =>
      obtain ⟨w, hw, hs⟩ := ih
      refine ⟨d :: w, List.forall_mem_cons.2 ⟨hd, hw⟩, ?_⟩
      rcases hs with rfl | ⟨c, rest, hc, rfl⟩
      · exact .inl rfl
      · exact .inr ⟨c, rest, hc, rfl⟩

theorem exists_runs (s : List Char) : ∃ ws, Runs s ws := by
  induction hn : s.length using Nat.strong_induction_on generalizing s with
  | h n ih =>
    obtain ⟨w, hw, rfl | ⟨c, rest, hc, rfl⟩⟩ := exists_field isSeparator s
    · by_cases hnil : s = []
      · exact ⟨[], hnil ▸ .nil⟩
      · exact ⟨_, .last ⟨hnil, hw⟩⟩
    · obtain ⟨ws, hws⟩ := ih rest.length (by simp [← hn]; omega) rest rfl
      by_cases hnil : w = []
      · subst hnil
        exact ⟨ws, .skip hc hws⟩
      · exact ⟨_, .word ⟨hnil, hw⟩ hc hws⟩

theorem runs_iff : Runs s ws ↔ ws = tokens s := by
  constructor
  · exact fun h => h.tokens_eq.symm
  · rintro rfl
    obtain ⟨ws, h⟩ := exists_runs s
    rwa [h.tokens_eq]

end Hart.Text
