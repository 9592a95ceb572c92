import Hart.Execution.Processor
import Hart.Instruction.BaseSet

namespace Hart

variable {σ : Type} {hooks : Hooks σ} {host : σ} {m : Machine} {e : Exception}

def Action.hook? (hooks : Hooks σ) : {f : Format} → Action f → Option (Hook σ)
  | _, .systemCall => some hooks.systemCall
  | _, .systemBreak => some hooks.systemBreak
  | _, _ => none

def Hook.failed (hook : Hook σ) (host : σ) (m : Machine) (text : String) : Reply σ Exception :=
  ⟨(hook host m).host, { m with memory := (hook host m).machine.memory }, (hook host m).stop,
    some (.hook m.pc text)⟩

theorem Hook.call_of_some {hook : Hook σ} {text : String} (h : (hook host m).failure? = some text) :
    hook.call host m = hook.failed host m text := by
  simp only [Hook.call, h]
  rfl

theorem Hook.call_of_none {hook : Hook σ} (h : (hook host m).failure? = none) :
    hook.call host m =
      ⟨(hook host m).host, (hook host m).machine.advance, (hook host m).stop, none⟩ := by
  simp only [Hook.call, h]

theorem Hook.call_failed {hook : Hook σ} (h : (hook.call host m).failure? = some e) :
    ∃ text, (hook host m).failure? = some text ∧ e = .hook m.pc text ∧
      hook.call host m = hook.failed host m text := by
  cases hf : (hook host m).failure? with
  | none =>
    rw [call_of_none hf] at h
    cases h
  | some text =>
    rw [call_of_some hf] at h ⊢
    exact ⟨text, rfl, (Option.some.inj h).symm, rfl⟩

theorem Action.execute_failed {f : Format} {a : Action f} {p : Operands f}
    (h : (a.execute hooks host m p).failure? = some e) :
    (∃ cause, e = .memory cause ∧ a.execute hooks host m p = .failed host m e) ∨
      ∃ hook text, a.hook? hooks = some hook ∧ (hook host m).failure? = some text ∧
        e = .hook m.pc text ∧ a.execute hooks host m p = hook.failed host m text := by
  cases a with
  | compute op =>
    cases p
    cases h
  | load width signed =>
    cases p with
    | immediate rd rs1 imm =>
      simp only [Action.execute] at h ⊢
      cases hp : m.memory.peek width (m.read rs1 + imm) with
      | ok raw =>
        rw [hp] at h
        cases h
      | error cause =>
        rw [hp] at h
        cases h
        exact .inl ⟨cause, rfl, rfl⟩
  | jumpRegister =>
    cases p
    cases h
  | systemCall =>
    obtain ⟨text, hf, he, hc⟩ := Hook.call_failed h
    exact .inr ⟨hooks.systemCall, text, rfl, hf, he, hc⟩
  | systemBreak =>
    obtain ⟨text, hf, he, hc⟩ := Hook.call_failed h
    exact .inr ⟨hooks.systemBreak, text, rfl, hf, he, hc⟩
  | branch cond =>
    cases p
    cases h
  | jump =>
    cases p
    cases h
  | store width =>
    cases p with
    | store rs1 rs2 imm =>
      simp only [Action.execute] at h ⊢
      cases hp : m.memory.poke width (m.read rs1 + imm) (m.read rs2) with
      | ok memory =>
        rw [hp] at h
        cases h
      | error cause =>
        rw [hp] at h
        cases h
        exact .inl ⟨cause, rfl, rfl⟩
  | loadUpper =>
    cases p
    cases h
  | addUpper =>
    cases p
    cases h

theorem Action.execute_of_hook?_some {f : Format} {a : Action f} {hook : Hook σ}
    (h : a.hook? hooks = some hook) (p : Operands f) : a.execute hooks host m p = hook.call host m := by
  cases a with
  | systemCall | systemBreak =>
    cases h
    rfl
  | compute | load | jumpRegister | branch | jump | store | loadUpper | addUpper => cases h

theorem Action.execute_of_hook?_none {f : Format} {a : Action f} (h : a.hook? hooks = none)
    (p : Operands f) :
    (a.execute hooks host m p).host = host ∧ (a.execute hooks host m p).stop = false := by
  cases a with
  | systemCall | systemBreak => cases h
  | load width signed =>
    cases p with
    | immediate rd rs1 imm =>
      rw [execute]
      cases m.memory.peek width (m.read rs1 + imm) <;> exact ⟨rfl, rfl⟩
  | store width =>
    cases p with
    | store rs1 rs2 imm =>
      rw [execute]
      cases m.memory.poke width (m.read rs1 + imm) (m.read rs2) <;> exact ⟨rfl, rfl⟩
  | compute | jumpRegister | branch | jump | loadUpper | addUpper =>
    cases p
    exact ⟨rfl, rfl⟩

theorem Machine.fetch_eq_ok {s : InstructionSet} {w : Word} {i : Instruction}
    (hw : m.memory.peek .word m.pc = .ok w) (hi : s.decode w = .ok i) : m.fetch s = .ok i := by
  simp only [fetch, hw, hi]

theorem Machine.fetch_eq_ok_iff {s : InstructionSet} {i : Instruction} :
    m.fetch s = .ok i ↔ ∃ w, m.memory.peek .word m.pc = .ok w ∧ s.decode w = .ok i := by
  constructor
  · intro h
    unfold fetch at h
    split at h
    · cases h
    · next w hw =>
      split at h
      · cases h
      · next hi =>
        cases h
        exact ⟨w, hw, hi⟩
  · rintro ⟨w, hw, hi⟩
    exact fetch_eq_ok hw hi

theorem Machine.fetch_of_decode_error {s : InstructionSet} {w : Word} {cause : DecodeError}
    (hw : m.memory.peek .word m.pc = .ok w) (hi : s.decode w = .error cause) :
    m.fetch s = .error (.decode cause) := by
  simp only [fetch, hw, hi]

theorem Machine.fetch_of_peek_error {m : Machine} {s : InstructionSet} {cause : MemoryError}
    (h : m.memory.peek .word m.pc = .error cause) : m.fetch s = .error (.memory cause) := by
  simp only [fetch, h]

namespace Processor

structure FaultedStep (p : Processor σ) (e : Exception) (q : Processor σ) : Prop where
  pc : q.machine.pc = p.machine.pc
  registers : q.machine.registers = p.machine.registers
  steps : q.steps = p.steps
  status : q.status = .faulted
  fault : q.fault? = some e
  memory : (∀ pc text, e ≠ .hook pc text) → q.machine.memory = p.machine.memory
  hook : ∀ pc text, e = .hook pc text → pc = p.machine.pc ∧
    ∃ i hook, p.machine.fetch p.table = .ok i ∧ i.descriptor.action.hook? p.hooks = some hook ∧
      (hook p.host p.machine).failure? = some text ∧
      q.machine.memory = (hook p.host p.machine).machine.memory

theorem fetch_error {s : InstructionSet} (h : m.fetch s = .error e) :
    (∃ cause, e = .memory cause) ∨ ∃ cause, e = .decode cause := by
  unfold Machine.fetch at h
  split at h
  · cases h
    exact .inl ⟨_, rfl⟩
  · split at h
    · cases h
      exact .inr ⟨_, rfl⟩
    · cases h

theorem FaultedStep.of_machine_eq {p q : Processor σ} (hm : q.machine = p.machine)
    (hs : q.steps = p.steps) (he : ∀ pc text, e ≠ .hook pc text) : FaultedStep p e (q.raise e) where
  pc := congrArg Machine.pc hm
  registers := congrArg Machine.registers hm
  steps := hs
  status := rfl
  fault := rfl
  memory _ := congrArg Machine.memory hm
  hook pc text h := absurd h (he pc text)

theorem accept_of_some {p : Processor σ} {r : Reply σ Exception} (h : r.failure? = some e) :
    p.accept r = (.error e, { p with
      machine := r.machine, host := r.host, stopRequested := p.stopRequested || r.stop }.raise e) := by
  simp only [accept, h]

theorem accept_of_none {p : Processor σ} {r : Reply σ Exception} (h : r.failure? = none) :
    p.accept r = (.ok (), { p with
      machine := r.machine, host := r.host, stopRequested := p.stopRequested || r.stop,
      steps := p.steps + 1 }) := by
  simp only [accept, h]

theorem step_of_fetch_ok {p : Processor σ} {i : Instruction} (hr : p.status = .running)
    (hf : p.machine.fetch p.table = .ok i) :
    p.step = p.accept (i.descriptor.action.execute p.hooks p.host p.machine i.operands) := by
  simp only [step, hr, hf, if_true]

theorem step_of_fetch_error {p : Processor σ} (hr : p.status = .running)
    (hf : p.machine.fetch p.table = .error e) : p.step = (.error e, p.raise e) := by
  simp only [step, hr, hf, if_true]

/-- A failing step commits nothing: the processor is faulted with the exception, and beyond that
only a hook that failed can have changed something, in memory. -/
theorem faultedStep_of_step {p : Processor σ} (hr : p.status = .running)
    (h : p.step.1 = .error e) : FaultedStep p e p.step.2 := by
  cases hf : p.machine.fetch p.table with
  | error cause =>
    rw [step_of_fetch_error hr hf] at h ⊢
    cases h
    apply FaultedStep.of_machine_eq rfl rfl
    rintro pc text rfl
    rcases fetch_error hf with ⟨_, hc⟩ | ⟨_, hc⟩ <;> cases hc
  | ok i =>
    rw [step_of_fetch_ok hr hf] at h ⊢
    cases hx : (i.descriptor.action.execute p.hooks p.host p.machine i.operands).failure? with
    | none =>
      rw [accept_of_none hx] at h
      cases h
    | some cause =>
      rw [accept_of_some hx] at h ⊢
      cases h
      rcases Action.execute_failed hx with ⟨cause, rfl, ha⟩ | ⟨hook, text, hh, ht, rfl, ha⟩
      · rw [ha]
        exact .of_machine_eq rfl rfl fun pc text h => Exception.noConfusion h
      · rw [ha]
        exact
          { pc := rfl
            registers := rfl
            steps := rfl
            status := rfl
            fault := rfl
            memory := fun he => absurd rfl (he _ _)
            hook := by
              rintro pc text ⟨⟩
              exact ⟨rfl, i, hook, hf, hh, ht, rfl⟩ }

theorem faultedStep_ecall :
    let hook : Hook Unit := fun _ m =>
      ⟨(), ⟨7, m.registers.write 10 1, .empty 1 Nat.one_pos⟩, true, some "refused"⟩
    let memory := (Memory.empty 4 (Nat.succ_pos 3)).push (.image (.ofArray #[0x73, 0, 0, 0]))
    let p := start .base ⟨hook, hook⟩ () (.ofMemory memory)
    p.status = .running ∧ p.step.1 = .error (.hook 0 "refused") ∧
      FaultedStep p (.hook 0 "refused") p.step.2 := by
  have hw : ((Memory.empty 4 (Nat.succ_pos 3)).push (.image (.ofArray #[0x73, 0, 0, 0]))).peek
      .word 0 = .ok 0x73 := by rfl
  have hi : InstructionSet.base.decode 0x73 =
      .ok ⟨0x73, ⟨"ECALL", .system, .funct3Funct12 0 0, .systemCall⟩, .immediate 0 0 0⟩ := by rfl
  intro hook memory p
  have h : p.step.1 = .error (.hook 0 "refused") := by
    rw [step_of_fetch_ok rfl (Machine.fetch_eq_ok hw hi)]
    rfl
  exact ⟨rfl, h, faultedStep_of_step rfl h⟩

end Processor

end Hart
