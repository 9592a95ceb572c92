import Hart.Proofs.Assembly.Statements
import Hart.Instruction.BaseSet
import Mathlib

namespace Hart.Assembly

open Text (byteLength)

def Line.shift (line : Line) (k n : Nat) : Line := ⟨line.number + k, line.span.shift n, line.word⟩

def SourceError.shift (e : SourceError) (k : Nat) : SourceError := ⟨e.number + k, e.text, e.cause⟩

def Program.append (p q : Program) : Program :=
  ⟨p.source ++ "\n" ++ q.source,
    p.lines ++ q.lines.map (·.shift (p.source.toList.count '\n' + 1) (p.source.utf8ByteSize + 1))⟩

variable {s : InstructionSet}

theorem Program.spans_append (p q : Program) :
    (p.append q).spans = p.spans ++ q.spans.map (·.shift (p.source.utf8ByteSize + 1)) := by
  simp [append, spans, Line.shift]

theorem Program.bytes_append (p q : Program) : (p.append q).bytes = p.bytes ++ q.bytes := by
  have hwords : (p.append q).words = p.words ++ q.words := by
    simp [append, words, Line.shift]
  rw [bytes, hwords, List.flatMap_append, ← bytes, ← bytes]

theorem encodeStatements_shift (ts : List Statement) (k n : Nat) :
    encodeStatements s (ts.map (·.shift k n)) =
      ((encodeStatements s ts).1.map (·.shift k n), (encodeStatements s ts).2.map (·.shift k)) := by
  induction ts with
  | nil => rfl
  | cons t ts ih =>
    rw [List.map_cons]
    cases hw : encodeLine s t.text with
    | error cause =>
      rw [encodeStatements_cons_of_error hw, encodeStatements_cons_of_error (t := t.shift k n) hw]
      rfl
    | ok w =>
      rw [encodeStatements_cons_of_ok hw, encodeStatements_cons_of_ok (t := t.shift k n) hw, ih,
        Statement.span_shift]
      rfl

theorem encodeStatements_append (ts us : List Statement) : encodeStatements s (ts ++ us) =
    match encodeStatements s ts with
    | (lines, none) => (lines ++ (encodeStatements s us).1, (encodeStatements s us).2)
    | (lines, some e) => (lines, some e) := by
  induction ts with
  | nil => rfl
  | cons t ts ih =>
    rw [List.cons_append]
    cases hw : encodeLine s t.text with
    | error cause => rw [encodeStatements_cons_of_error hw, encodeStatements_cons_of_error hw]
    | ok w =>
      rw [encodeStatements_cons_of_ok hw, encodeStatements_cons_of_ok hw, ih]
      obtain ⟨lines, failure?⟩ := encodeStatements s ts
      cases failure? <;> rfl

theorem assemble_append (s : InstructionSet) (a b : String) : assemble s (a ++ "\n" ++ b) =
    match assemble s a with
    | .error e => .error e
    | .ok p =>
      match assemble s b with
      | .error e => .error (e.shift (a.toList.count '\n' + 1))
      | .ok q => .ok (p.append q) := by
  have hsource : (a ++ "\n" ++ b).toList = a.toList ++ '\n' :: b.toList := by simp
  rw [assemble_eq, hsource, statements_append, encodeStatements_append, encodeStatements_shift,
    assemble_eq s a, assemble_eq s b, Text.byteLength_toList]
  obtain ⟨lines, failure?⟩ := encodeStatements s (statements a.toList)
  obtain ⟨later, failure'?⟩ := encodeStatements s (statements b.toList)
  cases failure? <;> cases failure'? <;> rfl

/-- Two texts with a line end between them assemble to the bytes of the first and then of the second, with the
spans of the second moved behind the first. Else the failure is that of the first text, or that of the second
with its line counted from the beginning of the first. -/
theorem assemble_compositional (s : InstructionSet) (a b : String) :
    let c := a ++ "\n" ++ b
    (∀ p q, assemble s a = .ok p → assemble s b = .ok q → ∃ r, assemble s c = .ok r ∧
      r.bytes = p.bytes ++ q.bytes ∧ r.spans = p.spans ++ q.spans.map (·.shift (a.utf8ByteSize + 1))) ∧
    (∀ e, assemble s a = .error e → assemble s c = .error e) ∧
    ∀ p number text cause, assemble s a = .ok p → assemble s b = .error ⟨number, text, cause⟩ →
      assemble s c = .error ⟨number + a.toList.count '\n' + 1, text, cause⟩ := by
  refine ⟨fun p q hp hq => ⟨p.append q, ?_, p.bytes_append q, ?_⟩, fun e he => ?_,
    fun p number text cause hp he => ?_⟩
  · rw [assemble_append, hp, hq]
  · rw [p.spans_append, (assemble_eq_ok_iff.1 hp).1]
  · rw [assemble_append, he]
  · rw [assemble_append, hp, he]
    rfl

theorem assemble_compositional_two_lines :
    let a := "ADDI x1 x0 1\n; \u00e9"
    let p : Program := ⟨a, [⟨1, ⟨0, 12⟩, 0x00100093⟩]⟩
    let q : Program := ⟨"\tECALL", [⟨1, ⟨1, 6⟩, 0x00000073⟩]⟩
    let e : SourceError := ⟨1, "FOO", .unknownMnemonic "FOO"⟩
    assemble .base a = .ok p ∧ assemble .base "\tECALL" = .ok q ∧ assemble .base " FOO " = .error e ∧
      (∃ r, assemble .base (a ++ "\n" ++ "\tECALL") = .ok r ∧
        r.bytes = [0x93, 0x00, 0x10, 0x00, 0x73, 0x00, 0x00, 0x00] ∧ r.spans = [⟨0, 12⟩, ⟨19, 24⟩]) ∧
      assemble .base (" FOO " ++ "\n" ++ a) = .error e ∧
      assemble .base (a ++ "\n" ++ " FOO ") = .error ⟨3, "FOO", .unknownMnemonic "FOO"⟩ := by
  intro a p q e
  have hp : assemble .base a = .ok p := by decide +kernel
  have hq : assemble .base "\tECALL" = .ok q := by decide +kernel
  have he : assemble .base " FOO " = .error e := by decide +kernel
  have hcount : a.toList.count '\n' = 1 := by decide +kernel
  obtain ⟨hok, _⟩ := assemble_compositional .base a "\tECALL"
  obtain ⟨_, hfirst, _⟩ := assemble_compositional .base " FOO " a
  obtain ⟨_, _, hsecond⟩ := assemble_compositional .base a " FOO "
  have hlater := hsecond p _ _ _ hp he
  rw [hcount] at hlater
  exact ⟨hp, hq, he, hok p q hp hq, hfirst e he, hlater⟩

end Hart.Assembly
