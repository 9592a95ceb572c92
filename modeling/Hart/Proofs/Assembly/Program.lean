import Hart.Assembly.Program
import Mathlib

namespace Hart.Assembly

def codePart (line : List Char) : List Char := Text.trim (line.takeWhile (· != ';'))

def codeLines (source : List Char) : List (List Char) :=
  ((Text.lines source).map codePart).filter (· ≠ [])

structure Statement.Encodes (s : InstructionSet) (t : Statement) (line : Line) : Prop where
  number : line.number = t.number
  span : line.span = t.span
  word : encodeLine s t.text = .ok line.word

variable {s : InstructionSet} {t : Statement} {ts : List Statement} {lines : List Line} {w : Word}
  {cause : LineError} {source : String} {program : Program}

theorem map_text_statementsFrom (number start : Nat) (rest : List (List Char)) :
    (statementsFrom number start rest).map Statement.text = (rest.map codePart).filter (· ≠ []) := by
  induction rest generalizing number start with
  | nil => rfl
  | cons line rest ih =>
    rw [statementsFrom, List.map_cons, List.filter_cons, ← codePart]
    by_cases h : codePart line = []
    · rw [if_pos h, if_neg (by simpa using h), ih]
    · rw [if_neg h, if_pos (by simpa using h), List.map_cons, ih]

theorem map_text_statements (source : List Char) :
    (statements source).map Statement.text = codeLines source :=
  map_text_statementsFrom 1 0 (Text.lines source)

theorem encodeStatements_cons_of_ok (h : encodeLine s t.text = .ok w) (ts : List Statement) :
    encodeStatements s (t :: ts) =
      (⟨t.number, t.span, w⟩ :: (encodeStatements s ts).1, (encodeStatements s ts).2) := by
  rw [encodeStatements, h]

theorem encodeStatements_cons_of_error (h : encodeLine s t.text = .error cause)
    (ts : List Statement) :
    encodeStatements s (t :: ts) = ([], some ⟨t.number, String.ofList t.text, cause⟩) := by
  rw [encodeStatements, h]

theorem encodeStatements_eq_none_iff :
    encodeStatements s ts = (lines, none) ↔ List.Forall₂ (Statement.Encodes s) ts lines := by
  induction ts generalizing lines with
  | nil => simp [encodeStatements, eq_comm]
  | cons t ts ih =>
    rw [List.forall₂_cons_left_iff]
    cases hw : encodeLine s t.text with
    | error cause =>
      rw [encodeStatements_cons_of_error hw]
      constructor
      · intro h
        cases h
      · rintro ⟨line, _, hline, _⟩
        cases hw.symm.trans hline.word
    | ok w =>
      rw [encodeStatements_cons_of_ok hw, Prod.mk.injEq]
      constructor
      · rintro ⟨rfl, hnone⟩
        exact ⟨_, _, ⟨rfl, rfl, hw⟩, ih.1 (Prod.ext rfl hnone), rfl⟩
      · rintro ⟨⟨number, span, v⟩, rest, ⟨rfl, rfl, hv⟩, hrest, rfl⟩
        rw [ih.2 hrest]
        cases hw.symm.trans hv
        exact ⟨rfl, rfl⟩

theorem assembleUntilFailure_of_ok (h : assemble s source = .ok program) :
    assembleUntilFailure s source = (program, none) := by
  rw [assemble] at h
  split at h
  · next hp =>
    cases h
    exact hp
  · cases h

theorem assemble_eq (s : InstructionSet) (source : String) : assemble s source =
    match encodeStatements s (statements source.toList) with
    | (lines, none) => .ok ⟨source, lines⟩
    | (_, some e) => .error e := by
  rw [assemble, assembleUntilFailure]
  obtain ⟨lines, failure?⟩ := encodeStatements s (statements source.toList)
  cases failure? <;> rfl

theorem assemble_eq_ok_iff : assemble s source = .ok program ↔ program.source = source ∧
    List.Forall₂ (Statement.Encodes s) (statements source.toList) program.lines := by
  obtain ⟨source', lines⟩ := program
  rw [← encodeStatements_eq_none_iff, assemble_eq]
  obtain ⟨lines', failure?⟩ := encodeStatements s (statements source.toList)
  cases failure? <;> simp [eq_comm]

theorem forall₂_words (h : assemble s source = .ok program) :
    List.Forall₂ (fun line w => encodeLine s line = .ok w) (codeLines source.toList)
      program.words := by
  rw [← map_text_statements, Program.words, List.forall₂_map_left_iff, List.forall₂_map_right_iff]
  exact (assemble_eq_ok_iff.1 h).2.imp fun _ _ hline => hline.word

namespace Program

variable {i j : Nat}

theorem length_bytes (p : Program) : p.bytes.length = 4 * p.words.length := by
  simp [bytes, Nat.mul_comm]

theorem getElem?_bytes (p : Program) (hj : j < 4) :
    p.bytes[4 * i + j]? = p.words[i]?.map (Word.byte · j) := by
  rw [bytes]
  generalize p.words = ws
  induction ws generalizing i with
  | nil => rfl
  | cons w ws ih =>
    have hlen : ((List.range 4).map (Word.byte w)).length = 4 := rfl
    rw [List.flatMap_cons]
    cases i with
    | zero =>
      rw [List.getElem?_append_left (by omega), List.getElem?_map, List.getElem?_range (by omega)]
      simp
    | succ i =>
      rw [List.getElem?_append_right (by omega), hlen, List.getElem?_cons_succ, ← ih]
      congr 1
      omega

end Program

end Hart.Assembly
