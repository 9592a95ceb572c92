import Hart.Proofs.Assembly.Statements
import Hart.Instruction.BaseSet
import Mathlib

namespace Hart.Assembly

open Text (byteLength Span Trimmed)

structure LineOf (source before line : List Char) : Prop where
  source : ∃ after, source = before ++ (line ++ after) ∧ (after = [] ∨ ∃ rest, after = '\n' :: rest)
  before : before = [] ∨ ∃ previous, before = previous ++ ['\n']
  line : '\n' ∉ line

/-- The statement is the code of a line of the source. Its number counts the line ends before it, its start
the bytes. -/
def Statement.Stands (t : Statement) (source : List Char) : Prop :=
  ∃ before line lead, LineOf source before line ∧ CodeOf line lead t.text ∧
    t.number = before.count '\n' + 1 ∧ t.start = byteLength (before ++ lead)

variable {a b source before line lead code : List Char} {t u : Statement}

theorem lineOf_self (h : '\n' ∉ line) : LineOf line [] line :=
  ⟨⟨[], by simp, .inl rfl⟩, .inl rfl, h⟩

theorem LineOf.append_right (h : LineOf a before line) (b : List Char) :
    LineOf (a ++ '\n' :: b) before line := by
  obtain ⟨⟨after, rfl, hafter⟩, hbefore, hline⟩ := h
  refine ⟨⟨after ++ '\n' :: b, by simp, .inr ?_⟩, hbefore, hline⟩
  rcases hafter with rfl | ⟨rest, rfl⟩
  · exact ⟨b, rfl⟩
  · exact ⟨rest ++ '\n' :: b, rfl⟩

theorem LineOf.append_left (h : LineOf b before line) (a : List Char) :
    LineOf (a ++ '\n' :: b) (a ++ '\n' :: before) line := by
  obtain ⟨⟨after, rfl, hafter⟩, hbefore, hline⟩ := h
  refine ⟨⟨after, by simp, hafter⟩, .inr ?_, hline⟩
  rcases hbefore with rfl | ⟨previous, rfl⟩
  · exact ⟨a, rfl⟩
  · exact ⟨a ++ '\n' :: previous, by simp⟩

theorem Statement.Stands.append_right (h : t.Stands a) (b : List Char) : t.Stands (a ++ '\n' :: b) := by
  obtain ⟨before, line, lead, hline, h⟩ := h
  exact ⟨before, line, lead, hline.append_right b, h⟩

theorem Statement.Stands.append_left (h : t.Stands b) (a : List Char) :
    (t.shift (a.count '\n' + 1) (byteLength a + 1)).Stands (a ++ '\n' :: b) := by
  obtain ⟨before, line, lead, hline, hcode, hnumber, hstart⟩ := h
  refine ⟨_, line, lead, hline.append_left a, hcode, ?_, ?_⟩
  · simp only [shift, hnumber, List.count_append, List.count_cons_self]
    omega
  · have hend : '\n'.utf8Size = 1 := rfl
    simp only [shift, hstart, Text.byteLength_append, Text.byteLength_cons]
    omega

theorem stands_of_mem_line (h : '\n' ∉ line) (ht : t ∈ statements line) : t.Stands line := by
  by_cases hc : codePart line = []
  · simp [statements_of_blank h hc] at ht
  · rw [statements_of_code h hc, List.mem_singleton] at ht
    subst ht
    exact ⟨[], line, _, lineOf_self h, codeOf_codePart hc, rfl, rfl⟩

theorem stands_of_mem (h : t ∈ statements source) : t.Stands source := by
  induction source using Text.lines_induction generalizing t with
  | last line hline => exact stands_of_mem_line hline h
  | more line rest hline ih =>
    rw [statements_append, List.mem_append, List.mem_map] at h
    rcases h with h | ⟨u, hu, rfl⟩
    · exact (stands_of_mem_line hline h).append_right rest
    · exact (ih hu).append_left line

theorem statements_of_codeOf (h : '\n' ∉ line) (hc : CodeOf line lead code) :
    statements line = [⟨1, byteLength lead, code⟩] := by
  obtain ⟨hcode, hlead⟩ := hc.eq
  rw [statements_of_code h (hcode ▸ hc.nonempty), hcode, hlead]

theorem mem_statements_iff : t ∈ statements source ↔ t.Stands source := by
  refine ⟨stands_of_mem, ?_⟩
  obtain ⟨number, start, code⟩ := t
  rintro ⟨before, line, lead, ⟨⟨after, rfl, hafter⟩, hbefore, hline⟩, hcode, hnumber, hstart⟩
  obtain rfl : number = before.count '\n' + 1 := hnumber
  obtain rfl : start = byteLength (before ++ lead) := hstart
  -- Without what stands before it, the line is the first, and a line end cuts off what stands behind it.
  have hfirst : ⟨1, byteLength lead, code⟩ ∈ statements (line ++ after) := by
    rcases hafter with rfl | ⟨rest, rfl⟩
    · simp [statements_of_codeOf hline hcode]
    · simp [statements_cons hline, statements_of_codeOf hline hcode]
  rcases hbefore with rfl | ⟨previous, rfl⟩
  · exact hfirst
  · rw [List.append_assoc, List.singleton_append, statements_append, List.mem_append, List.mem_map]
    refine .inr ⟨_, hfirst, ?_⟩
    have hend : '\n'.utf8Size = 1 := rfl
    simp only [Statement.shift, Statement.mk.injEq, and_true, Text.byteLength_append,
      Text.byteLength_cons, Text.byteLength_nil, List.count_append, List.count_singleton_self]
    omega

theorem Statement.Stands.exists_around (h : t.Stands source) :
    ∃ before after, source = before ++ t.text ++ after ∧ t.start = byteLength before := by
  obtain ⟨before, line, lead, ⟨⟨after, rfl, _⟩, _⟩, ⟨⟨trail, comment, rfl, _⟩, _⟩, _, hstart⟩ := h
  exact ⟨before ++ lead, trail ++ comment ++ after, by simp, hstart⟩

theorem Statement.Stands.stop_le (h : t.Stands source) : t.span.stop ≤ byteLength source := by
  obtain ⟨before, after, rfl, hstart⟩ := h.exists_around
  simp [span, hstart]

theorem pairwise_statements (source : List Char) :
    (statements source).Pairwise fun t u => t.span.stop < u.span.start := by
  have hline : ∀ line, '\n' ∉ line →
      (statements line).Pairwise fun t u => t.span.stop < u.span.start := fun line h => by
    by_cases hc : codePart line = []
    · simp [statements_of_blank h hc]
    · simp [statements_of_code h hc]
  induction source using Text.lines_induction with
  | last line h => exact hline line h
  | more line rest h ih =>
    rw [statements_cons h, List.pairwise_append]
    refine ⟨hline line h, ?_, ?_⟩
    · rw [List.pairwise_map]
      refine ih.imp fun htu => ?_
      simp only [Statement.span_shift, Text.Span.shift]
      omega
    · intro t ht _ hu
      obtain ⟨u, _, rfl⟩ := List.mem_map.1 hu
      have hstop := (stands_of_mem ht).stop_le
      simp only [Statement.span_shift, Text.Span.shift]
      omega

/-- The span is that of the code of a line of the source: what stands between the blanks at the beginning of
the line and the blanks in front of its comment or its end. -/
structure CodeSpan (source : String) (r : Span) : Prop where
  nonempty : r.start < r.stop
  inside : r.stop ≤ source.utf8ByteSize
  start_isValid : (⟨r.start⟩ : String.Pos.Raw).IsValid source
  stop_isValid : (⟨r.stop⟩ : String.Pos.Raw).IsValid source
  semicolon : ';' ∉ (r.slice source).toList
  lineEnd : '\n' ∉ (r.slice source).toList
  trimmed : Trimmed (r.slice source).toList
  code : ∃ before line lead, LineOf source.toList before line ∧
    CodeOf line lead (r.slice source).toList ∧ r.start = byteLength (before ++ lead) ∧
    r.stop = r.start + byteLength (r.slice source).toList

section Source

variable {source : String}

theorem Statement.Stands.slice (h : t.Stands source.toList) :
    t.span.slice source = String.ofList t.text := by
  obtain ⟨before, after, hsource, hstart⟩ := h.exists_around
  rw [← String.ofList_toList (s := source), hsource, span, hstart, Text.Span.slice_append]

theorem Statement.Stands.newline_not_mem (h : t.Stands source.toList) : '\n' ∉ t.text := by
  obtain ⟨before, line, lead, hline, ⟨⟨trail, comment, rfl, _⟩, _⟩, _⟩ := h
  exact fun hc => hline.line (by simp [hc])

theorem Statement.Stands.codeSpan (h : t.Stands source.toList) : CodeSpan source t.span := by
  have hslice : (t.span.slice source).toList = t.text := by rw [h.slice, String.toList_ofList]
  obtain ⟨before, after, hsource, hstart⟩ := h.exists_around
  obtain ⟨_, line, lead, hline, hcode, _, hlead⟩ := id h
  have hpos := Text.byteLength_pos hcode.nonempty
  have hstop : t.span.stop = byteLength (before ++ t.text) := by
    rw [Text.byteLength_append, ← hstart]
    rfl
  exact
    { nonempty := Nat.lt_add_of_pos_right hpos
      inside := h.stop_le.trans_eq (Text.byteLength_toList source)
      start_isValid := by
        rw [span, hstart, ← String.ofList_toList (s := source), hsource, List.append_assoc]
        exact Text.isValid_byteLength before _
      stop_isValid := by
        rw [hstop, ← String.ofList_toList (s := source), hsource]
        exact Text.isValid_byteLength _ after
      semicolon := hslice ▸ hcode.semicolon
      lineEnd := hslice ▸ h.newline_not_mem
      trimmed := hslice ▸ hcode.trimmed
      code := ⟨_, line, lead, hline, hslice ▸ hcode, hlead, by rw [hslice]; rfl⟩ }

variable {s : InstructionSet} {program : Program} {line : Line}

theorem exists_statement (h : assemble s source = .ok program) (hline : line ∈ program.lines) :
    ∃ t ∈ statements source.toList, t.Encodes s line := by
  have hlines := (assemble_eq_ok_iff.1 h).2
  obtain ⟨i, hi, rfl⟩ := List.getElem_of_mem hline
  exact ⟨_, List.get_mem _ _, hlines.get (hlines.length_eq ▸ hi) hi⟩

theorem spans_eq (h : assemble s source = .ok program) :
    program.spans = (statements source.toList).map Statement.span := by
  have hlines := (assemble_eq_ok_iff.1 h).2
  rw [Program.spans, ← List.forall₂_eq_eq_eq, List.forall₂_map_left_iff, List.forall₂_map_right_iff]
  exact (hlines.imp fun _ _ hline => hline.span).flip

theorem mem_spans_iff (h : assemble s source = .ok program) {r : Span} :
    r ∈ program.spans ↔ CodeSpan source r := by
  rw [spans_eq h, List.mem_map]
  constructor
  · rintro ⟨t, ht, rfl⟩
    exact (stands_of_mem ht).codeSpan
  · intro hr
    obtain ⟨before, line, lead, hline, hcode, hstart, hstop⟩ := hr.code
    refine ⟨⟨before.count '\n' + 1, r.start, (r.slice source).toList⟩,
      mem_statements_iff.2 ⟨before, line, lead, hline, hcode, rfl, hstart⟩, ?_⟩
    rw [Statement.span, ← hstop]

/-- There is a span for each word, and the spans are those of the code of the lines, each behind the one
before it. The text at a span is that of an instruction with the word as its encoding. -/
theorem spans_of_assemble (h : assemble s source = .ok program) :
    program.spans.length = program.words.length ∧
    program.bytes.length = 4 * program.words.length ∧
    program.spans.Pairwise (fun r r' => r.stop < r'.start) ∧
    (∀ r, r ∈ program.spans ↔ CodeSpan source r) ∧
    (∀ i, program.lineOf? i = program.spans[i]?.map (·.slice source)) ∧
    (∀ i w, program.words[i]? = some w →
      ∃ text, program.lineOf? i = some text ∧ encodeLine s text.toList = .ok w) ∧
    ∀ i, program.lineOf? i = none ↔ program.words.length ≤ i := by
  obtain ⟨hsource, _⟩ := assemble_eq_ok_iff.1 h
  refine ⟨by simp [Program.spans, Program.words], program.length_bytes, ?_, fun r => mem_spans_iff h,
    ?_, ?_, ?_⟩
  · rw [spans_eq h, List.pairwise_map]
    exact pairwise_statements _
  · intro i
    simp [Program.lineOf?, Program.spans, hsource, Function.comp_def]
  · intro i w hw
    obtain ⟨line, hi, rfl⟩ : ∃ line, program.lines[i]? = some line ∧ line.word = w := by
      simpa [Program.words] using hw
    obtain ⟨t, ht, hline⟩ := exists_statement h (List.mem_of_getElem? hi)
    refine ⟨String.ofList t.text, ?_, ?_⟩
    · rw [Program.lineOf?, hi, Option.map_some, hline.span, hsource, (stands_of_mem ht).slice]
    · rw [String.toList_ofList, hline.word]
  · intro i
    simp [Program.lineOf?, Program.words]

end Source

theorem spans_of_assemble_blanks :
    let source := "\u3000ADDI x1 x0 1 ; \u00e9\r\n;\n\tECALL\u00a0"
    let program : Program := ⟨source, [⟨1, ⟨3, 15⟩, 0x00100093⟩, ⟨3, ⟨25, 30⟩, 0x00000073⟩]⟩
    assemble .base source = .ok program ∧ CodeSpan source ⟨3, 15⟩ ∧ CodeSpan source ⟨25, 30⟩ ∧
      (∀ r, CodeSpan source r → r = ⟨3, 15⟩ ∨ r = ⟨25, 30⟩) ∧
      (∃ text, program.lineOf? 1 = some text ∧ encodeLine .base text.toList = .ok 0x00000073) ∧
      program.lineOf? 2 = none := by
  intro source program
  have h : assemble .base source = .ok program := by decide +kernel
  obtain ⟨_, _, _, hspans, _, hwords, hnone⟩ := spans_of_assemble h
  refine ⟨h, (hspans _).1 (by decide), (hspans _).1 (by decide), fun r hr => ?_, hwords 1 _ rfl,
    (hnone 2).2 (by decide)⟩
  simpa [program, Program.spans] using (hspans r).2 hr

end Hart.Assembly
