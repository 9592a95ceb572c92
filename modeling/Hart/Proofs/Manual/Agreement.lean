import Hart.Proofs.Manual.Decode
import Hart.Proofs.Manual.Machine

namespace Hart.Manual

open State

variable {σ : Type} (hooks : Hooks σ) (host : σ) (m : Machine) (w : Word)

theorem ofMachine_compute (op : Operation) (f : Nat → Int → Nat)
    (hf : ∀ a b : Word, (op.apply a b).toNat = f a.toNat b.toInt) :
    ofMachine host (m.write (w.extractLsb' 7 5)
        (op.apply (m.read (w.extractLsb' 15 5)) ((w.extractLsb 31 20).signExtend 32))).advance =
      ((ofMachine host m).set (rd w.toNat)
        (f ((ofMachine host m).x (rs1 w.toNat)) (immI w.toNat))).next := by
  apply ofMachine_result
  rw [hf, rs1, x_register, immI_toNat]

theorem ofMachine_shift (op : Operation) (f : Nat → Nat → Nat)
    (hf : ∀ a {b : Word}, b.toNat < 32 → (op.apply a b).toNat = f a.toNat b.toNat) :
    ofMachine host (m.write (w.extractLsb' 7 5) (op.apply (m.read (w.extractLsb' 15 5))
        ((w.extractLsb 31 20).signExtend 32 &&& 0x1f))).advance =
      ((ofMachine host m).set (rd w.toNat)
        (f ((ofMachine host m).x (rs1 w.toNat)) (shamt w.toNat))).next := by
  have hs := shamt_toNat w
  apply ofMachine_result
  rw [hf _ (hs ▸ Nat.mod_lt _ (by decide)), ← hs, rs1, x_register]

theorem ofMachine_compare (cond : Condition) (taken : Nat → Nat → Prop)
    [∀ a b, Decidable (taken a b)]
    (hc : ∀ a b : Word, cond.holds a b = true ↔ taken a.toNat b.toNat) :
    ofMachine host (if cond.holds (m.read (w.extractLsb' 15 5)) (m.read (w.extractLsb' 20 5)) then
        m.jump ((w.extractLsb 31 31 ++ w.extractLsb 7 7 ++ w.extractLsb 30 25 ++ w.extractLsb 11 8 ++
          0#1).signExtend 32) else m.advance) =
      (ofMachine host m).branch
        (taken ((ofMachine host m).x (rs1 w.toNat)) ((ofMachine host m).x (rs2 w.toNat)))
        (immB w.toNat) := by
  apply ofMachine_branch host m _ (immB_toNat w)
  rw [hc, rs1, rs2, x_register, x_register]

theorem wrap_address : wrap ((ofMachine host m).x (rs1 w.toNat) + immI w.toNat) =
    (m.read (w.extractLsb' 15 5) + (w.extractLsb 31 20).signExtend 32).toNat := by
  rw [rs1, x_register, immI_toNat, wrap_add]

theorem wrap_store_address : wrap ((ofMachine host m).x (rs1 w.toNat) + immS w.toNat) =
    (m.read (w.extractLsb' 15 5) +
      (w.extractLsb 31 25 ++ w.extractLsb 11 7).signExtend 32).toNat := by
  rw [rs1, x_register, immS_toNat, wrap_add]

theorem wrap_signed {n : Nat} (h0 : 0 < n) (h : n ≤ 32) {v : Word} (hv : v.toNat < 2 ^ n) :
    wrap (signed n v.toNat) = (signExtend v n).toNat := by
  have hn : (v.setWidth n).toNat = v.toNat := by
    rw [BitVec.toNat_setWidth, Nat.mod_eq_of_lt hv]
  have he : (signExtend v n).toInt = signed n v.toNat := by
    rw [signExtend, toInt_signExtend_word h0 h, hn]
  rw [← he, wrap_toInt]

theorem execute_descriptor (hm : m.memory.WellFormed) (i : Mnemonic) :
    ofReply (i.descriptor.action.execute hooks host m (i.descriptor.operands w)) =
      i.execute (.ofHooks hooks host m) (ofMachine host m) w.toNat := by
  cases i with
  | addi =>
    exact congrArg some (ofMachine_compute host m w .add (fun a i => wrap (a + i)) Operation.toNat_add)
  | slti =>
    exact congrArg some (ofMachine_compute host m w .slt
      (fun a i => if signed 32 a < i then 1 else 0) Operation.toNat_slt)
  | sltiu =>
    exact congrArg some (ofMachine_compute host m w .sltu
      (fun a i => if a < wrap i then 1 else 0) Operation.toNat_sltu)
  | xori =>
    exact congrArg some (ofMachine_compute host m w .xor (fun a i => a ^^^ wrap i) Operation.toNat_xor)
  | ori =>
    exact congrArg some (ofMachine_compute host m w .or (fun a i => a ||| wrap i) Operation.toNat_or)
  | andi =>
    exact congrArg some (ofMachine_compute host m w .and (fun a i => a &&& wrap i) Operation.toNat_and)
  | slli =>
    exact congrArg some (ofMachine_shift host m w .sll (fun a s => a * 2 ^ s % 2 ^ 32)
      Operation.toNat_sll)
  | srli =>
    exact congrArg some (ofMachine_shift host m w .srl (fun a s => a / 2 ^ s) Operation.toNat_srl)
  | srai =>
    exact congrArg some (ofMachine_shift host m w .sra (fun a s => wrap (signed 32 a / 2 ^ s))
      Operation.toNat_sra)
  | lui => exact congrArg some (ofMachine_result host m w _ (immU_toNat w))
  | auipc =>
    refine congrArg some (ofMachine_result host m w _ ?_)
    rw [immU_toNat, BitVec.toNat_add]
    rfl
  | jal =>
    exact congrArg some ((ofMachine_jump host _ (immJ_toNat w)).trans
      (congrArg (goto · _) (ofMachine_link host m w)))
  | jalr =>
    refine congrArg some ((ofMachine_goto host _ _ _ ?_).trans
      (congrArg (goto · _) (ofMachine_link host m w)))
    rw [wrap_address, ← toNat_and_not_one, wrap_toNat]
    rfl
  | beq =>
    exact congrArg some (ofMachine_compare host m w .eq (fun a b => a = b) Condition.holds_eq)
  | bne =>
    exact congrArg some (ofMachine_compare host m w .ne (fun a b => a ≠ b) Condition.holds_ne)
  | blt =>
    exact congrArg some (ofMachine_compare host m w .lt (fun a b => signed 32 a < signed 32 b)
      Condition.holds_lt)
  | bge =>
    exact congrArg some (ofMachine_compare host m w .ge (fun a b => signed 32 b ≤ signed 32 a)
      Condition.holds_ge)
  | bltu =>
    exact congrArg some (ofMachine_compare host m w .ltu (fun a b => a < b) Condition.holds_ltu)
  | bgeu =>
    exact congrArg some (ofMachine_compare host m w .geu (fun a b => b ≤ a) Condition.holds_geu)
  | lb =>
    exact ofReply_load host hm w .byte true (wrap_address host m w)
      fun v hv => wrap_signed (by decide) (by decide) hv
  | lh =>
    exact ofReply_load host hm w .half true (wrap_address host m w)
      fun v hv => wrap_signed (by decide) (by decide) hv
  | lw => exact ofReply_load host hm w .word false (wrap_address host m w) fun v _ => wrap_toNat v
  | lbu => exact ofReply_load host hm w .byte false (wrap_address host m w) fun v _ => wrap_toNat v
  | lhu => exact ofReply_load host hm w .half false (wrap_address host m w) fun v _ => wrap_toNat v
  | sb =>
    exact (ofReply_store host hm .byte (wrap_store_address host m w)).trans
      (congrArg (store _ _ _) (x_register host m w 20).symm)
  | sh =>
    exact (ofReply_store host hm .half (wrap_store_address host m w)).trans
      (congrArg (store _ _ _) (x_register host m w 20).symm)
  | sw =>
    exact (ofReply_store host hm .word (wrap_store_address host m w)).trans
      (congrArg (store _ _ _) (x_register host m w 20).symm)
  | ecall => exact ofReply_call host m hooks.systemCall
  | ebreak => exact ofReply_call host m hooks.systemBreak

theorem load?_pc (hm : m.memory.WellFormed) : (ofMachine host m).memory.load? 4 (ofMachine host m).pc =
    (m.memory.peek .word m.pc).toOption.map BitVec.toNat :=
  Space.load?_ofMemory hm .word m.pc

def ofOutcome (o : Outcome σ Unit) : Option (State σ) :=
  match o.1 with
  | .ok () => some (ofMachine o.2.host o.2.machine)
  | .error _ => none

theorem ofOutcome_accept (p : Processor σ) (r : Reply σ Exception) :
    ofOutcome (p.accept r) = ofReply r := by
  cases hf : r.failure? with
  | none =>
    rw [Processor.accept_of_none hf, ofReply, hf]
    rfl
  | some e =>
    rw [Processor.accept_of_some hf, ofReply, hf]
    rfl

theorem step_of_identify {p : Processor σ} {i : Mnemonic} (hr : p.status = .running)
    (ht : p.table = .base) (hw : p.machine.memory.peek .word p.machine.pc = .ok w)
    (hi : identify? w.toNat = some i) :
    p.step = p.accept (i.descriptor.action.execute p.hooks p.host p.machine (i.descriptor.operands w)) :=
  Processor.step_of_fetch_ok hr (Machine.fetch_eq_ok hw (ht ▸ decode_eq_ok_iff.2 ⟨i, hi, rfl⟩))

theorem ofOutcome_step {p : Processor σ} (hr : p.status = .running) (ht : p.table = .base)
    (hm : p.machine.memory.WellFormed) : ofOutcome p.step =
      step (.ofHooks p.hooks p.host p.machine) (ofMachine p.host p.machine) := by
  rw [step, load?_pc _ _ hm]
  cases hw : p.machine.memory.peek .word p.machine.pc with
  | error e =>
    rw [Processor.step_of_fetch_error hr (Machine.fetch_of_peek_error hw)]
    rfl
  | ok w =>
    cases hd : InstructionSet.base.decode w with
    | error e =>
      have hf := Machine.fetch_of_decode_error hw (ht ▸ hd)
      have hi : identify? w.toNat = none := by
        cases hi : identify? w.toNat with
        | none => rfl
        | some i =>
          rw [decode_eq_ok_iff.2 ⟨i, hi, rfl⟩] at hd
          cases hd
      rw [Processor.step_of_fetch_error hr hf]
      change none = (identify? w.toNat).bind _
      rw [hi]
      rfl
    | ok e =>
      obtain ⟨i, hi, rfl⟩ := decode_eq_ok_iff.1 hd
      rw [step_of_identify w hr ht hw hi, ofOutcome_accept, execute_descriptor _ _ _ _ hm]
      change _ = (identify? w.toNat).bind _
      rw [hi]
      rfl

theorem isSome_ofOutcome_iff (o : Outcome σ Unit) : (ofOutcome o).isSome ↔ o.1 = .ok () := by
  rw [ofOutcome]
  cases o.1 <;> simp

/-- One step over the base table is one step of the manual's interpreter, which sees the memory as bytes. It
succeeds exactly when the word at the program counter can be read and names an instruction whose access or
hook succeeds, and then it leaves the host, the program counter, the registers and the bytes of the
interpreter. -/
theorem step_agrees {p : Processor σ} (hr : p.status = .running) (ht : p.table = .base) {n : Nat}
    (hn : 0 < n) {ops : List Memory.Operation} (hm : p.machine.memory = (Memory.empty n hn).after ops) :
    let s := ofMachine p.host p.machine
    let answers := Answers.ofHooks p.hooks p.host p.machine
    (p.step.1 = .ok () ↔ ∃ w i,
      s.memory.load? 4 s.pc = some w ∧ identify? w = some i ∧ i.Succeeds answers s w) ∧
    (p.step.1 = .ok () → step answers s = some (ofMachine p.step.2.host p.step.2.machine)) := by
  intro s answers
  have hwell : p.machine.memory.WellFormed := by
    rw [hm]
    exact ((Memory.wellFormed_empty n hn).after ops).1
  have hs : ofOutcome p.step = step answers s := ofOutcome_step hr ht hwell
  constructor
  · rw [← isSome_ofOutcome_iff, hs, isSome_step_iff]
  · intro h
    rw [← hs, ofOutcome, h]

theorem step_agrees_sh :
    let hook : Hook Unit := fun host m => .done host m
    let code : Array Byte := #[0x23, 0x1f, 0x11, 0xfe, 0, 0, 0, 9, 9, 9, 9]
    let memory := (Memory.empty 12 (Nat.succ_pos 11)).after [.insert (.ram (.ofArray code))]
    let p := Processor.start .base ⟨hook, hook⟩ ()
      ⟨0, (RegisterFile.zero.write 1 0x12345678).write 2 10, memory⟩
    let t := ofMachine p.step.2.host p.step.2.machine
    p.step.1 = .ok () ∧ t.pc = 4 ∧ t.x 2 = 10 ∧ (List.range 12).map (fun a => (t.memory.cell a).byte?) =
      [some 0x23, some 0x1f, some 0x11, some 0xfe, some 0, some 0, some 0, some 9, some 0x78, some 0x56,
        some 9, none] := by
  intro hook code memory p t
  let s := ofMachine p.host p.machine
  let answers := Answers.ofHooks p.hooks p.host p.machine
  obtain ⟨hsucceeds, hstep⟩ := step_agrees (p := p) rfl rfl (Nat.succ_pos 11) rfl
  have hword : s.memory.load? 4 s.pc = some 0xfe111f23 := by decide +kernel
  have hcell : s.memory.cell 8 = .ram (some 9) := by decide +kernel
  have hok : p.step.1 = .ok () :=
    hsucceeds.2 ⟨_, .sh, hword, rfl, .inr ⟨⟨_, hcell⟩, by decide +kernel⟩⟩
  have hleaves : (step answers s).map (fun t => (t.pc, t.x 2, (List.range 12).map fun a =>
      (t.memory.cell a).byte?)) = some (4, 10, [some 0x23, some 0x1f, some 0x11, some 0xfe, some 0,
        some 0, some 0, some 9, some 0x78, some 0x56, some 9, none]) := by decide +kernel
  rw [hstep hok] at hleaves
  simpa [hok, t] using hleaves

end Hart.Manual
