import Hart.Proofs.Execution.Preservation
import Hart.Proofs.Instruction.RoundTrip

namespace Hart

variable {σ : Type}

def RegisterFile.Writes : RegisterFile → RegisterFile → Prop :=
  Relation.ReflTransGen fun f g => ∃ r v, f.write r v = g

theorem RegisterFile.Writes.read_zero {f g : RegisterFile} (h : f.Writes g) : g.read 0#5 = f.read 0#5 := by
  induction h with
  | refl => rfl
  | tail _ hw ih =>
    obtain ⟨r, v, rfl⟩ := hw
    rw [read_write, if_neg (fun h => h.1 h.2), ih]

namespace Machine

/-- From `m` to `m'` registers are changed by writes alone, and an even program counter stays even. -/
structure MovesTo (m m' : Machine) : Prop where
  registers : m.registers.Writes m'.registers
  even : 2 ∣ m.pc.toNat → 2 ∣ m'.pc.toNat

namespace MovesTo

variable {m m' : Machine}

theorem refl (m : Machine) : m.MovesTo m := ⟨.refl, id⟩

theorem write (h : m.MovesTo m') (r : Register) (v : Word) : m.MovesTo (m'.write r v) :=
  ⟨h.registers.tail ⟨r, v, rfl⟩, h.even⟩

theorem withMemory (h : m.MovesTo m') (memory : Memory) : m.MovesTo { m' with memory } :=
  ⟨h.registers, h.even⟩

theorem jump (h : m.MovesTo m') {offset : Word} (ho : 2 ∣ offset.toNat) : m.MovesTo (m'.jump offset) :=
  ⟨h.registers, fun hm => two_dvd_add (h.even hm) ho⟩

theorem advance (h : m.MovesTo m') : m.MovesTo m'.advance := h.jump (by decide)

end MovesTo

theorem inRange_of_fetch {m : Machine} {s : InstructionSet} {i : Instruction} (h : m.fetch s = .ok i) :
    i.operands.InRange := by
  -- The offsets of a fetched instruction are even, since words have no place for their lowest bit.
  obtain ⟨w, _, hi⟩ := fetch_eq_ok_iff.1 h
  obtain ⟨d, _, _, rfl⟩ := InstructionSet.decode_eq_ok_iff.1 hi
  exact Operands.canonical_eq_self_iff.1 (d.shape.canonical_operands w)

end Machine

/-- A call that does not fail writes to registers and leaves the program counter even. Of one that fails nothing is
asked. -/
def Hook.Orderly (hook : Hook σ) : Prop :=
  ∀ host (m : Machine), (hook host m).failure? = none → m.MovesTo (hook host m).machine

structure Hooks.Orderly (hooks : Hooks σ) : Prop where
  systemCall : hooks.systemCall.Orderly
  systemBreak : hooks.systemBreak.Orderly

theorem Hook.Orderly.call {hook : Hook σ} (h : hook.Orderly) (host : σ) (m : Machine) :
    m.MovesTo (hook.call host m).machine := by
  cases hf : (hook host m).failure? with
  | none =>
    rw [Hook.call_of_none hf]
    exact (h host m hf).advance
  | some text =>
    rw [Hook.call_of_some hf]
    exact (Machine.MovesTo.refl m).withMemory _

theorem Action.movesTo_execute {f : Format} (a : Action f) {p : Operands f} (hp : p.InRange) {hooks : Hooks σ}
    (h : hooks.Orderly) (host : σ) (m : Machine) : m.MovesTo (a.execute hooks host m p).machine := by
  have hm := Machine.MovesTo.refl m
  cases a with
  | systemCall => exact h.systemCall.call host m
  | systemBreak => exact h.systemBreak.call host m
  | compute op =>
    cases p with
    | immediate rd rs1 imm => exact (hm.write rd _).advance
  | load width signed =>
    cases p with
    | immediate rd rs1 imm =>
      rw [execute]
      split
      · exact (hm.write rd _).advance
      · exact hm
  | jumpRegister =>
    cases p with
    | immediate rd rs1 imm =>
      -- Whatever the register holds, the target has lost its lowest bit.
      refine ⟨(hm.write rd m.nextPc).registers, fun _ => ?_⟩
      rw [execute, Reply.done, toNat_and_not_one]
      exact Nat.dvd_mul_left 2 _
  | branch cond =>
    cases p with
    | branch rs1 rs2 imm =>
      rw [execute, Reply.done]
      split
      · exact hm.jump (two_dvd_of_toInt hp.1)
      · exact hm.advance
  | jump =>
    cases p with
    | jump rd imm => exact (hm.write rd _).jump (two_dvd_of_toInt hp.1)
  | store width =>
    cases p with
    | store rs1 rs2 imm =>
      rw [execute]
      split
      · exact (hm.withMemory _).advance
      · exact hm
  | loadUpper =>
    cases p with
    | upper rd imm => exact (hm.write rd imm).advance
  | addUpper =>
    cases p with
    | upper rd imm => exact (hm.write rd _).advance

namespace Processor

structure Orderly (p : Processor σ) : Prop where
  hooks : p.hooks.Orderly
  zero : p.machine.read 0#5 = 0
  even : 2 ∣ p.pc.toNat

namespace Orderly

variable {p q : Processor σ}

theorem of_movesTo (h : p.Orderly) (hq : q.hooks = p.hooks) (hm : p.machine.MovesTo q.machine) : q.Orderly where
  hooks := hq ▸ h.hooks
  zero := hm.registers.read_zero.trans h.zero
  even := hm.even h.even

theorem halt (h : p.Orderly) : p.halt.Orderly := by
  unfold Processor.halt
  split
  · exact ⟨h.hooks, h.zero, h.even⟩
  · exact h

theorem step (h : p.Orderly) : p.step.2.Orderly := by
  refine h.of_movesTo (StoresTo.step p).hooks ?_
  by_cases hr : p.status = .running
  · cases hf : p.machine.fetch p.table with
    | error e =>
      rw [step_of_fetch_error hr hf]
      exact .refl p.machine
    | ok i =>
      have hm := i.descriptor.action.movesTo_execute (Machine.inRange_of_fetch hf) h.hooks p.host p.machine
      rw [step_of_fetch_ok hr hf, accept]
      split
      · exact hm
      · exact hm
  · rw [step_of_not_running hr]
    exact .refl p.machine

end Orderly

theorem stable_orderly : Stable fun p q : Processor σ => p.Orderly → q.Orderly where
  refl _ := id
  trans h h' := h' ∘ h
  halt _ h := h.halt
  requestStop _ h := ⟨h.hooks, h.zero, h.even⟩
  step _ h := h.step

/-- A processor of any table that starts at an even address, with registers as they are made, keeps register zero and
an even program counter through every session, with failing steps and calls that are undone, if the calls that succeed
and the edits of the host write to registers and leave the program counter even. -/
theorem orderly_of_session {p q : Processor σ} {ops : List (HostOperation σ)} {as : List (Except Exception Unit)}
    (hregisters : p.machine.registers = .zero ∨ ∃ v, p.machine.registers = .withStackPointer v)
    (hpc : 2 ∣ p.pc.toNat) (hhooks : p.hooks.Orderly)
    (hops : ∀ f, .edit f ∈ ops → ∀ host (m : Machine), m.MovesTo (f host m).2)
    (h : Session p ops as q) : q.machine.read 0#5 = 0 ∧ 2 ∣ q.pc.toNat := by
  have hzero : p.machine.read 0#5 = 0 := by
    rw [Machine.read]
    rcases hregisters with hr | ⟨v, hr⟩
    · rw [hr, RegisterFile.read_zero]
    · rw [hr, RegisterFile.withStackPointer, RegisterFile.read_write, if_neg (by decide), RegisterFile.read_zero]
  have hedits (f : σ → Machine → σ × Machine) (hf : .edit f ∈ ops) (t : Processor σ) (ht : t.Orderly) :
      (t.edit f).Orderly := ht.of_movesTo rfl (hops f hf t.host t.machine)
  have hq := stable_orderly.session hedits h ⟨hhooks, hzero, hpc⟩
  exact ⟨hq.zero, hq.even⟩

theorem orderly_of_session_ecall :
    let hook : Hook Bool := fun called m =>
      if called then ⟨true, ⟨m.pc + 1, ⟨.replicate 32 1⟩, m.memory⟩, false, some "refused"⟩
      else ⟨true, m.write 0 5, false, none⟩
    let memory := (Memory.empty 16 (Nat.succ_pos 15)).push
      (.image (.ofArray #[0x67, 0, 1, 0, 0, 0, 0x73, 0, 0, 0, 0x73, 0, 0, 0]))
    let p := start .base ⟨hook, hook⟩ false ⟨0, .withStackPointer 7, memory⟩
    let writeZero : HostOperation Bool := .edit fun called m => (called, m.write 0 9)
    p.hooks.Orderly ∧ ∃ as q, Session p [writeZero, .request (.runFor 5)] as q ∧
      q.fault? = some (.hook 10 "refused") ∧ q.machine.read 0#5 = 0 ∧ 2 ∣ q.pc.toNat := by
  intro hook memory p writeZero
  have hhook : hook.Orderly := by
    intro called m hcall
    cases called with
    | true => cases hcall
    | false => exact (Machine.MovesTo.refl m).write 0 5
  have hs : Session p [writeZero, .request (.runFor 5)] _ _ := .edit (.request (.runFor 5) (.nil _))
  have hedits (f : Bool → Machine → Bool × Machine) (hf : .edit f ∈ [writeZero, .request (.runFor 5)])
      (called : Bool) (m : Machine) : m.MovesTo (f called m).2 := by
    rcases List.mem_cons.1 hf with hf | hf
    · rw [HostOperation.edit.inj hf]
      exact (Machine.MovesTo.refl m).write 0 9
    · simp at hf
  have hq := orderly_of_session (.inr ⟨7, rfl⟩) (by decide) ⟨hhook, hhook⟩ hedits hs
  exact ⟨⟨hhook, hhook⟩, _, _, hs, by decide +kernel, hq⟩

end Processor

end Hart
