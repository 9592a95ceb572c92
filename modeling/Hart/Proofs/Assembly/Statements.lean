import Hart.Proofs.Assembly.Program
import Hart.Proofs.Text.Lines
import Mathlib

namespace Hart

def Text.Span.shift (r : Text.Span) (n : Nat) : Text.Span := ⟨r.start + n, r.stop + n⟩

namespace Assembly

open Text (byteLength isBlank Trimmed)

def Statement.shift (t : Statement) (k n : Nat) : Statement := ⟨t.number + k, t.start + n, t.text⟩

variable {a b line lead code : List Char} {t : Statement} {k n k' n' : Nat}

theorem Statement.span_shift (t : Statement) (k n : Nat) : (t.shift k n).span = t.span.shift n := by
  simp [span, shift, Text.Span.shift, Nat.add_right_comm]

theorem Statement.shift_shift (t : Statement) (k n k' n' : Nat) :
    (t.shift k n).shift k' n' = t.shift (k + k') (n + n') := by
  simp [shift, Nat.add_assoc]

def indent (line : List Char) : List Char := (line.takeWhile (· != ';')).takeWhile isBlank

theorem statementsFrom_cons_of_blank (h : codePart line = []) (number start : Nat)
    (ls : List (List Char)) : statementsFrom number start (line :: ls) =
      statementsFrom (number + 1) (start + byteLength line + 1) ls := by
  rw [statementsFrom]
  exact if_pos h

theorem statementsFrom_cons_of_code (h : codePart line ≠ []) (number start : Nat)
    (ls : List (List Char)) : statementsFrom number start (line :: ls) =
      ⟨number, start + byteLength (indent line), codePart line⟩ ::
        statementsFrom (number + 1) (start + byteLength line + 1) ls := by
  rw [statementsFrom]
  exact if_neg h

theorem statementsFrom_shift (number start k n : Nat) (ls : List (List Char)) :
    statementsFrom (number + k) (start + n) ls =
      (statementsFrom number start ls).map (·.shift k n) := by
  induction ls generalizing number start with
  | nil => rfl
  | cons line ls ih =>
    have hlater := ih (number + 1) (start + byteLength line + 1)
    rw [Nat.add_right_comm number, Nat.add_right_comm (start + _), Nat.add_right_comm start] at hlater
    by_cases h : codePart line = []
    · rw [statementsFrom_cons_of_blank h, statementsFrom_cons_of_blank h, hlater]
    · rw [statementsFrom_cons_of_code h, statementsFrom_cons_of_code h, hlater, List.map_cons]
      simp [Statement.shift, Nat.add_right_comm]

theorem statements_of_blank (h : '\n' ∉ line) (hc : codePart line = []) : statements line = [] := by
  rw [statements, Text.lines_of_not_mem h, statementsFrom_cons_of_blank hc, statementsFrom]

theorem statements_of_code (h : '\n' ∉ line) (hc : codePart line ≠ []) :
    statements line = [⟨1, byteLength (indent line), codePart line⟩] := by
  rw [statements, Text.lines_of_not_mem h, statementsFrom_cons_of_code hc, statementsFrom, Nat.zero_add]

theorem statements_cons (h : '\n' ∉ line) (rest : List Char) :
    statements (line ++ '\n' :: rest) =
      statements line ++ (statements rest).map (·.shift 1 (byteLength line + 1)) := by
  have hlines : Text.lines (line ++ '\n' :: rest) = line :: Text.lines rest := by
    rw [Text.lines_append, Text.lines_of_not_mem h, List.singleton_append]
  have hrest : statementsFrom 2 (byteLength line + 1) (Text.lines rest) =
      (statements rest).map (·.shift 1 (byteLength line + 1)) := by
    rw [statements, ← statementsFrom_shift, Nat.zero_add]
  rw [statements, hlines]
  by_cases hc : codePart line = []
  · rw [statementsFrom_cons_of_blank hc, Nat.zero_add, hrest, statements_of_blank h hc, List.nil_append]
  · rw [statementsFrom_cons_of_code hc, Nat.zero_add, Nat.zero_add, hrest, statements_of_code h hc,
      List.singleton_append]

theorem statements_append (a b : List Char) : statements (a ++ '\n' :: b) =
    statements a ++ (statements b).map (·.shift (a.count '\n' + 1) (byteLength a + 1)) := by
  induction a using Text.lines_induction with
  | last line h => rw [statements_cons h, List.count_eq_zero.2 h]
  | more line rest h ih =>
    have hcount : (line ++ '\n' :: rest).count '\n' + 1 = rest.count '\n' + 1 + 1 := by
      simp [List.count_eq_zero.2 h]
    have hend : '\n'.utf8Size = 1 := rfl
    have hbytes : byteLength (line ++ '\n' :: rest) + 1 = byteLength rest + 1 + (byteLength line + 1) := by
      rw [Text.byteLength_append, Text.byteLength_cons]
      omega
    rw [List.append_assoc, List.cons_append, statements_cons h, ih, statements_cons h, hcount, hbytes]
    simp [Statement.shift_shift]

structure CodeOf (line lead code : List Char) : Prop where
  line : ∃ trail comment, line = lead ++ (code ++ trail) ++ comment ∧
    (∀ c ∈ trail, isBlank c = true) ∧ (comment = [] ∨ ∃ rest, comment = ';' :: rest)
  lead : ∀ c ∈ lead, isBlank c = true
  nonempty : code ≠ []
  trimmed : Trimmed code
  semicolon : ';' ∉ code

theorem isBlank_semicolon : isBlank ';' = false := by
  decide

theorem codeOf_codePart (h : codePart line ≠ []) : CodeOf line (indent line) (codePart line) := by
  obtain ⟨trail, hcode, htrail⟩ := Text.exists_trail (line.takeWhile (· != ';'))
  have hmem : ';' ∉ line.takeWhile (· != ';') := fun hc => by simpa using List.mem_takeWhile_imp hc
  refine ⟨⟨trail, line.dropWhile (· != ';'), ?_, htrail, ?_⟩, fun c hc => List.mem_takeWhile_imp hc, h,
    Text.trimmed_trim _, fun hc => hmem ?_⟩
  · rw [← List.append_assoc, indent, codePart, ← hcode, List.takeWhile_append_dropWhile]
  · have hhead := List.head?_dropWhile_not (· != ';') line
    cases hd : line.dropWhile (· != ';') with
    | nil => exact .inl rfl
    | cons c rest =>
      rw [hd] at hhead
      obtain rfl : c = ';' := by simpa using hhead
      exact .inr ⟨rest, rfl⟩
  · rw [hcode]
    exact List.mem_append_left _ (List.mem_append_right _ hc)

theorem CodeOf.eq (h : CodeOf line lead code) : codePart line = code ∧ indent line = lead := by
  obtain ⟨⟨trail, comment, rfl, htrail, hcomment⟩, hlead, hne, htrim, hsemi⟩ := h
  have hblank : ∀ c, isBlank c = true → c ≠ ';' := by
    rintro c hc rfl
    simp [isBlank_semicolon] at hc
  have hcode : ∀ c ∈ lead ++ (code ++ trail), (c != ';') = true := by
    intro c hc
    rw [bne_iff_ne]
    rw [List.mem_append, List.mem_append] at hc
    rcases hc with hc | hc | hc
    · exact hblank c (hlead c hc)
    · exact fun h => hsemi (h ▸ hc)
    · exact hblank c (htrail c hc)
  have hcut : (lead ++ (code ++ trail) ++ comment).takeWhile (· != ';') = lead ++ (code ++ trail) := by
    rw [List.takeWhile_append_of_pos hcode]
    rcases hcomment with rfl | ⟨rest, rfl⟩ <;> simp
  rw [codePart, indent, hcut]
  exact ⟨Text.trim_append hlead htrim hne htrail, Text.takeWhile_isBlank_append hlead htrim hne⟩

end Assembly

end Hart
