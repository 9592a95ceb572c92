import Hart.Proofs.Execution.Session
import Hart.Proofs.Memory.Preservation

namespace Hart

variable {σ : Type}

/-- Whether it fails or not, a call changes memory by stores alone. -/
def Hook.StoreOnly (hook : Hook σ) : Prop :=
  ∀ host (m : Machine), m.memory.Stores (hook host m).machine.memory

structure Hooks.StoreOnly (hooks : Hooks σ) : Prop where
  systemCall : hooks.systemCall.StoreOnly
  systemBreak : hooks.systemBreak.StoreOnly

theorem Hook.StoreOnly.call {hook : Hook σ} (h : hook.StoreOnly) (host : σ) (m : Machine) :
    m.memory.Stores (hook.call host m).machine.memory := by
  have hm := h host m
  rw [Hook.call]
  split
  · exact hm
  · exact hm

theorem Action.execute_stores {f : Format} (a : Action f) (p : Operands f) {hooks : Hooks σ}
    (h : hooks.StoreOnly) (host : σ) (m : Machine) :
    m.memory.Stores (a.execute hooks host m p).machine.memory := by
  cases a with
  | systemCall => exact h.systemCall.call host m
  | systemBreak => exact h.systemBreak.call host m
  | load width signed =>
    cases p with
    | immediate rd rs1 imm =>
      rw [execute]
      split
      · exact .refl
      · exact .refl
  | store width =>
    cases p with
    | store rs1 rs2 imm =>
      rw [execute]
      split
      · next hm => exact .single ⟨_, _, _, hm⟩
      · exact .refl
  | compute | jumpRegister | jump | loadUpper | addUpper =>
    cases p
    exact .refl
  | branch cond =>
    cases p with
    | branch rs1 rs2 imm =>
      rw [execute]
      split
      · exact .refl
      · exact .refl

namespace Processor

structure Stable (R : Processor σ → Processor σ → Prop) : Prop where
  refl : ∀ p, R p p
  trans : ∀ {p q t}, R p q → R q t → R p t
  halt : ∀ p, R p p.halt
  requestStop : ∀ p, R p p.requestStop
  step : ∀ p, R p p.step.2

namespace Stable

variable {R : Processor σ → Processor σ → Prop} {p q : Processor σ} {as : List (Except Exception Unit)}

theorem checkStop (h : Stable R) (p : Processor σ) : R p p.checkStop := by
  unfold Processor.checkStop
  split
  · exact h.halt p
  · exact h.refl p

theorem checkStop_step {a : Except Exception Unit} (h : Stable R) (hs : p.checkStop.step = (a, q)) :
    R p q := by
  have hstep := h.trans (h.checkStop p) (h.step p.checkStop)
  rw [hs] at hstep
  exact hstep

theorem runForTold (h : Stable R) (p : Processor σ) (n : Nat) : R p (p.runForTold n).2.2 := by
  induction n generalizing p with
  | zero => exact h.checkStop p
  | succ n ih =>
    cases p.round with
    | halted hh =>
      rw [runForTold_of_halted hh]
      exact h.checkStop p
    | failed hh hs =>
      rw [runForTold_succ_of_error hh hs]
      exact h.checkStop_step hs
    | stepped hh hs =>
      rw [runForTold_succ_of_ok hh hs]
      exact h.trans (h.checkStop_step hs) (ih _)

theorem serves {r : Request} (h : Stable R) (hs : p.Serves r as q) : R p q := by
  cases hs with
  | step => exact h.step p
  | run hrun hend =>
    rw [ending?_state hend]
    exact h.runForTold p _
  | runFor n => exact h.runForTold p n
  | halt => exact h.halt p
  | stop => exact h.requestStop p

theorem session {ops : List (HostOperation σ)} (h : Stable R)
    (hops : ∀ f, .edit f ∈ ops → ∀ p, R p (p.edit f)) (hs : Session p ops as q) : R p q := by
  induction hs with
  | nil p => exact h.refl p
  | request hr _ ih =>
    exact h.trans (h.serves hr) (ih fun f hf => hops f (List.mem_cons_of_mem _ hf))
  | @edit _ _ _ p f _ ih =>
    exact h.trans (hops f (List.mem_cons_self ..) p) (ih fun g hg => hops g (List.mem_cons_of_mem _ hg))

end Stable

structure StoresTo (p q : Processor σ) : Prop where
  table : q.table = p.table
  hooks : q.hooks = p.hooks
  memory : p.hooks.StoreOnly → p.machine.memory.Stores q.machine.memory

namespace StoresTo

variable {p q t : Processor σ}

theorem refl (p : Processor σ) : p.StoresTo p := ⟨rfl, rfl, fun _ => .refl⟩

theorem trans (h : p.StoresTo q) (h' : q.StoresTo t) : p.StoresTo t where
  table := h'.table.trans h.table
  hooks := h'.hooks.trans h.hooks
  memory hp := (h.memory hp).trans (h'.memory (h.hooks ▸ hp))

theorem step (p : Processor σ) : p.StoresTo p.step.2 := by
  by_cases hr : p.status = .running
  · cases hf : p.machine.fetch p.table with
    | error e =>
      rw [step_of_fetch_error hr hf]
      exact ⟨rfl, rfl, fun _ => .refl⟩
    | ok i =>
      rw [step_of_fetch_ok hr hf, accept]
      have hm (hp : p.hooks.StoreOnly) :=
        i.descriptor.action.execute_stores i.operands hp p.host p.machine
      split
      · exact ⟨rfl, rfl, hm⟩
      · exact ⟨rfl, rfl, hm⟩
  · rw [step_of_not_running hr]
    exact refl p

theorem halt (p : Processor σ) : p.StoresTo p.halt := by
  unfold Processor.halt
  split
  · exact ⟨rfl, rfl, fun _ => .refl⟩
  · exact refl p

end StoresTo

theorem stable_storesTo : Stable (StoresTo (σ := σ)) where
  refl := .refl
  trans := .trans
  halt := .halt
  requestStop _ := ⟨rfl, rfl, fun _ => .refl⟩
  step := .step

def fetchAt (p : Processor σ) (a : Word) : Except Exception Instruction :=
  { p.machine with pc := a }.fetch p.table

variable {p q : Processor σ} {as : List (Except Exception Unit)}

theorem StoresTo.fetchAt_of_inImage (h : p.StoresTo q) (hp : p.hooks.StoreOnly) {a : Word}
    (ha : p.machine.memory.InImage .word a) : q.fetchAt a = p.fetchAt a := by
  rw [fetchAt, fetchAt, Machine.fetch, Machine.fetch, (h.memory hp).keeps.peek_of_inImage ha, h.table]

/-- If the hooks and the host's edits change memory by stores alone, all pages keep their ranges, rights
and kinds and the length of what backs them through every session, and images their bytes. Zero pages
still read as zero, and an instruction that is whole on an image stays what it is. -/
theorem keeps_of_session {ops : List (HostOperation σ)} (hp : p.hooks.StoreOnly)
    (hops : ∀ f, .edit f ∈ ops → ∀ host (m : Machine), m.memory.Stores (f host m).2.memory)
    (h : Session p ops as q) :
    p.machine.memory.Keeps q.machine.memory ∧
    (∀ w a, p.machine.memory.InZeroPage a → q.machine.memory.peek w a = .ok 0) ∧
    (∀ w a, p.machine.memory.InImage w a →
      q.machine.memory.peek w a = p.machine.memory.peek w a) ∧
    ∀ a, p.machine.memory.InImage .word a → q.fetchAt a = p.fetchAt a := by
  have hstores : p.StoresTo q :=
    stable_storesTo.session (fun f hf p => ⟨rfl, rfl, fun _ => hops f hf p.host p.machine⟩) h
  have hk := (hstores.memory hp).keeps
  exact ⟨hk, fun w _ ha => hk.peek_of_inZeroPage ha w, fun _ _ ha => hk.peek_of_inImage ha,
    fun _ ha => hstores.fetchAt_of_inImage hp ha⟩

theorem keeps_of_session_ecall :
    let hook : Hook Unit := fun host m => match m.memory.poke .byte 12 7 with
      | .ok memory => ⟨host, { m with memory }, false, some "refused"⟩
      | .error _ => ⟨host, m, false, none⟩
    let memory := ((Memory.empty 8 (Nat.succ_pos 7)).push (.image (.ofArray #[0x73, 0, 0, 0]))).push
      (.zeroedRam 8)
    let p := start .base ⟨hook, hook⟩ () (.ofMemory memory)
    ∃ as q, Session p [.request (.runFor 3)] as q ∧ q.fault? = some (.hook 0 "refused") ∧
      q.machine.memory.peek .byte 12 = .ok 7 ∧ memory.Keeps q.machine.memory ∧
      q.fetchAt 0 = p.fetchAt 0 := by
  intro hook memory p
  have hhook : hook.StoreOnly := by
    intro host m
    cases hm : m.memory.poke .byte 12 7 with
    | ok memory =>
      simp only [hook, hm]
      exact .single ⟨_, _, _, hm⟩
    | error e =>
      simp only [hook, hm]
      exact .refl
  have hs : Session p [.request (.runFor 3)] _ _ := .request (.runFor 3) (.nil _)
  obtain ⟨hk, _, _, hf⟩ := keeps_of_session ⟨hhook, hhook⟩ (fun _ hf => by simp at hf) hs
  have hcode : memory.InImage .word 0 :=
    ⟨memory.pages[0], .ofArray #[0x73, 0, 0, 0], by simp [Memory.pageAt?], rfl, rfl, by decide⟩
  exact ⟨_, _, hs, by decide +kernel, by decide +kernel, hk, hf 0 hcode⟩

end Processor

end Hart
