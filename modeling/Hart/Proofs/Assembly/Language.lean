import Hart.Proofs.Assembly.Operands
import Hart.Proofs.Manual.Syntax

/-! The language of the line assembler with the base table: which lines it accepts, the word of each of
them, and the error of every other line. -/

namespace Hart

open Assembly Manual

def Manual.Form.operands : Form → List Operand
  | .immediate => [.register, .register, .signed 12]
  | .shift => [.register, .register, .unsigned 5]
  | .branch => [.register, .register, .offset 13]
  | .store => [.register, .register, .signed 12]
  | .jump => [.register, .offset 21]
  | .upper => [.register, .unsigned 32]
  | .bare => []

namespace Assembly

inductive Accepted : Tokens → Word → Prop
  | intro (i : Mnemonic) : Operand.ReadsAll i.form.operands ts vs → i.Encodes vs w.toNat →
      Accepted (i.name :: ts) w

/-- What is wrong with the tokens: first the name, then the number of operands, then an operand. -/
inductive Refused : Tokens → LineError → Prop
  | unknownMnemonic : (∀ i : Mnemonic, i.name ≠ ts.headD "") →
      Refused ts (.unknownMnemonic (ts.headD ""))
  | wrongOperandCount (i : Mnemonic) : ts.length ≠ i.form.operands.length →
      Refused (i.name :: ts) (.wrongOperandCount i.form.operands.length ts.length)
  | operand (i : Mnemonic) : ts.length = i.form.operands.length →
      Operand.Flaw i.form.operands ts e → Refused (i.name :: ts) e

theorem refused_or_readsAll (us : Tokens) : (∃ e, Refused us e) ∨
    ∃ i ts vs, us = Mnemonic.name i :: ts ∧ Operand.ReadsAll i.form.operands ts vs := by
  by_cases hname : ∃ i : Mnemonic, i.name = us.headD ""
  · obtain ⟨i, hi⟩ := hname
    have hne : i.name ≠ "" := by cases i <;> decide
    cases us with
    | nil => exact absurd hi hne
    | cons t ts =>
      cases hi
      by_cases hlen : ts.length = i.form.operands.length
      · rcases Operand.readsAll_or_flaw hlen with ⟨vs, hvs⟩ | ⟨e, he⟩
        · exact .inr ⟨i, ts, vs, rfl, hvs⟩
        · exact .inl ⟨e, .operand i hlen he⟩
      · exact .inl ⟨_, .wrongOperandCount i hlen⟩
  · exact .inl ⟨_, .unknownMnemonic (not_exists.1 hname)⟩

end Assembly

namespace Manual

variable {ts : Tokens} {i : Mnemonic} {w : Word}

namespace Form

theorem readsAs_immediate (h : ts.length = 3) :
    Operand.ReadsAs Form.immediate.operands ts (Operands.read .immediate ts) fun vs p =>
      ∀ w : Word, Form.immediate.Holds w.toNat vs ↔ Operands.decode .immediate w = p := by
  refine Operand.readsAs_three (·.signed 2 12) Operands.immediate h
    (fun _ _ _ => Tokens.signed_readBy rfl (by decide)) fun _ _ _ v hv _ => ?_
  have hr : -2 ^ 11 ≤ v ∧ v < 2 ^ 11 := hv.range
  exact holds_immediate_iff (by omega)

theorem readsAs_shift (l : Locator) (h : ts.length = 3) :
    Operand.ReadsAs Form.shift.operands ts (Shape.shift.read l ts) fun vs p =>
      ∀ w : Word, Form.shift.Holds w.toNat vs ↔ Shape.shift.operands w = p := by
  refine Operand.readsAs_three (·.unsigned 2 5) Operands.immediate h
    (fun _ _ _ => Tokens.unsigned_readBy rfl (by decide)) fun _ _ _ v hv _ => ?_
  have hr : 0 ≤ v ∧ v < 2 ^ 5 := hv.range
  exact holds_shift_iff (by omega)

theorem readsAs_branch (h : ts.length = 3) :
    Operand.ReadsAs Form.branch.operands ts (Operands.read .branch ts) fun vs p =>
      ∀ w : Word, Form.branch.Holds w.toNat vs ↔ Operands.decode .branch w = p := by
  refine Operand.readsAs_three (·.offset 2 13) Operands.branch h
    (fun _ _ _ => Tokens.offset_readBy rfl (by decide)) fun _ _ _ v hv _ => ?_
  have hr : -2 ^ 12 ≤ v ∧ v < 2 ^ 12 := hv.range
  exact holds_branch_iff (by omega)

theorem readsAs_store (h : ts.length = 3) :
    Operand.ReadsAs Form.store.operands ts (Operands.read .store ts) fun vs p =>
      ∀ w : Word, Form.store.Holds w.toNat vs ↔ Operands.decode .store w = p := by
  refine Operand.readsAs_three (·.signed 2 12) (fun rs2 rs1 imm => Operands.store rs1 rs2 imm) h
    (fun _ _ _ => Tokens.signed_readBy rfl (by decide)) fun _ _ _ v hv _ => ?_
  have hr : -2 ^ 11 ≤ v ∧ v < 2 ^ 11 := hv.range
  exact holds_store_iff (by omega)

theorem readsAs_jump (h : ts.length = 2) :
    Operand.ReadsAs Form.jump.operands ts (Operands.read .jump ts) fun vs p =>
      ∀ w : Word, Form.jump.Holds w.toNat vs ↔ Operands.decode .jump w = p := by
  refine Operand.readsAs_two (·.offset 1 21) Operands.jump h
    (fun _ _ => Tokens.offset_readBy rfl (by decide)) fun _ _ v hv _ => ?_
  have hr : -2 ^ 20 ≤ v ∧ v < 2 ^ 20 := hv.range
  exact holds_jump_iff (by omega)

theorem readsAs_upper (h : ts.length = 2) :
    Operand.ReadsAs Form.upper.operands ts (Operands.read .upper ts) fun vs p =>
      ∀ w : Word, Form.upper.Holds w.toNat vs ↔ Operands.decode .upper w = p :=
  Operand.readsAs_two (·.unsigned 1 32) (fun rd imm => Operands.upper rd (imm &&& 0xfffff000)) h
    (fun _ _ => Tokens.unsigned_readBy rfl (by decide)) fun _ _ _ hv _ => holds_upper_iff hv.range

theorem readsAs_bare (l : Locator) (h : ts.length = 0) :
    Operand.ReadsAs Form.bare.operands ts (Shape.bare.read l ts) fun vs p =>
      ∀ w : Word, (w.extractLsb 31 20).signExtend 32 =
          signExtend (Locator.funct12Range.get l.pattern.value) 12 →
        (Form.bare.Holds w.toNat vs ↔ Shape.bare.operands w = p) := by
  cases List.eq_nil_of_length_eq_zero h
  refine .pure fun w hw => ?_
  rw [← hw]
  exact holds_bare_iff

end Form

theorem Mnemonic.readsAs (i : Mnemonic) (h : ts.length = i.form.operands.length) :
    Operand.ReadsAs i.form.operands ts (i.descriptor.read ts) fun vs p =>
      ∀ w : Word, i.Names w.toNat → (i.form.Holds w.toNat vs ↔ i.descriptor.operands w = p) := by
  cases i with
  | addi | slti | sltiu | xori | ori | andi | jalr | lb | lh | lw | lbu | lhu =>
    exact (Form.readsAs_immediate h).imp fun _ _ hp w _ => hp w
  | slli | srli | srai => exact (Form.readsAs_shift _ h).imp fun _ _ hp w _ => hp w
  | beq | bne | blt | bge | bltu | bgeu => exact (Form.readsAs_branch h).imp fun _ _ hp w _ => hp w
  | sb | sh | sw => exact (Form.readsAs_store h).imp fun _ _ hp w _ => hp w
  | jal => exact (Form.readsAs_jump h).imp fun _ _ hp w _ => hp w
  | lui | auipc => exact (Form.readsAs_upper h).imp fun _ _ hp w _ => hp w
  | ecall | ebreak =>
    exact (Form.readsAs_bare _ h).imp fun _ _ hp w hw =>
      hp w (Descriptor.inRange_operands ((Descriptor.matches_iff_names _ w).2 hw))

theorem Mnemonic.read_of_length_ne (i : Mnemonic) (h : ts.length ≠ i.form.operands.length) :
    i.descriptor.read ts = .error (.wrongOperandCount i.form.operands.length ts.length) := by
  cases i <;> exact Tokens.expectCount_bind_of_ne h _

end Manual

namespace Assembly

open InstructionSet

variable {ts : Tokens} {line : List Char} {w : Word} {e : LineError}

theorem encodeLine_of_name {i : Mnemonic} (h : (Text.tokens line).map String.ofList = i.name :: ts) :
    encodeLine .base line = (i.descriptor.read ts).map i.descriptor.encode :=
  encodeLine_of_tokens i.descriptor_mem (h.trans (by rw [i.mnemonic_descriptor]))

theorem fullMask_base : ∀ d ∈ baseDescriptors,
    d.format.operandMask ||| d.pattern.mask = BitVec.allOnes 32 := by
  decide

theorem encodeLine_of_accepted (h : Accepted ((Text.tokens line).map String.ofList) w) :
    encodeLine .base line = .ok w := by
  generalize hus : (Text.tokens line).map String.ofList = us at h
  cases h with
  | intro i hvs hw =>
    have hlen : _ = _ := hvs.length_eq
    obtain ⟨p, hp, hops⟩ := (i.readsAs hlen).ok _ hvs
    have hn := names_of_identify? hw.identify
    have hm := (i.descriptor.matches_iff_names w).2 hn
    rw [encodeLine_of_name hus, hp, ← (hops w hn).1 hw.holds, Except.map, Descriptor.encode_operands hm,
      fullMask_base _ i.descriptor_mem, BitVec.and_allOnes]

theorem encodeLine_of_refused (h : Refused ((Text.tokens line).map String.ofList) e) :
    encodeLine .base line = .error e := by
  generalize hus : (Text.tokens line).map String.ofList = us at h
  cases h with
  | unknownMnemonic hn =>
    have hfind : InstructionSet.base.find? (us.headD "") = none := by
      refine Option.eq_none_iff_forall_ne_some.2 fun d hd => ?_
      obtain ⟨hmem, hname⟩ := find?_eq_some_iff.1 hd
      obtain ⟨i, rfl⟩ := Mnemonic.exists_descriptor hmem
      exact hn i (i.mnemonic_descriptor.symm.trans hname)
    simp only [encodeLine, hus, hfind]
  | wrongOperandCount i hlen => rw [encodeLine_of_name hus, i.read_of_length_ne hlen, Except.map]
  | operand i hlen he => rw [encodeLine_of_name hus, (i.readsAs hlen).error _ he, Except.map]

theorem exists_accepted_or_refused (line : List Char) :
    (∃ w, Accepted ((Text.tokens line).map String.ofList) w) ∨
      ∃ e, Refused ((Text.tokens line).map String.ofList) e := by
  rcases refused_or_readsAll ((Text.tokens line).map String.ofList) with he | ⟨i, ts, vs, hus, hvs⟩
  · exact .inr he
  · obtain ⟨p, hp, hops⟩ := (i.readsAs hvs.length_eq).ok _ hvs
    have hn : i.Names (i.descriptor.encode p).toNat :=
      (i.descriptor.matches_iff_names _).1 (i.descriptor.matches_encode p)
    have hr : i.descriptor.InRange p := (Shape.says_of_read hp).2.1
    have hholds := (hops _ hn).2 (i.descriptor.operands_encode (regular_base _ i.descriptor_mem) hr)
    rw [hus]
    exact .inl ⟨_, .intro i hvs ⟨identify?_of_names hn, hholds⟩⟩

/-- The line assembler accepts exactly the lines that are the name of an instruction and operands which
may stand behind it, and gives the word in which these operands stand. For every other line it gives the
first of its errors. -/
theorem encodeLine_base_iff (line : List Char) : ∃ us, (∀ vs, Text.Runs line vs ↔ vs = us) ∧
    (∀ w, encodeLine .base line = .ok w ↔ Accepted (us.map String.ofList) w) ∧
    ∀ e, encodeLine .base line = .error e ↔ Refused (us.map String.ofList) e := by
  refine ⟨Text.tokens line, fun _ => Text.runs_iff, fun w => ⟨fun h => ?ok, encodeLine_of_accepted⟩,
    fun e => ⟨fun h => ?error, encodeLine_of_refused⟩⟩
  case ok =>
    rcases exists_accepted_or_refused line with ⟨v, hv⟩ | ⟨e, he⟩
    · rw [encodeLine_of_accepted hv] at h
      cases h
      exact hv
    · rw [encodeLine_of_refused he] at h
      cases h
  case error =>
    rcases exists_accepted_or_refused line with ⟨v, hv⟩ | ⟨e', he⟩
    · rw [encodeLine_of_accepted hv] at h
      cases h
    · rw [encodeLine_of_refused he] at h
      cases h
      exact he

end Assembly

end Hart
