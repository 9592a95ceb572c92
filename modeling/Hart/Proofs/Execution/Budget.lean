import Hart.Proofs.Execution.Session

namespace Hart.Processor

/-- The processor that a run with a budget of `n` leaves is in the status that the result announces, and
it retired all `n` instructions, up to `n`, or fewer. -/
inductive Announces (p : Processor σ) (n : Nat) : Outcome σ RunOutcome → Prop
  | budgetExhausted : q.status = .running → q.steps = p.steps + n →
      Announces p n (.ok .budgetExhausted, q)
  | halted (k : Nat) : q.status = .halted → q.steps = p.steps + k → k ≤ n → Announces p n (.ok .halted, q)
  | failed (k : Nat) : q.status = .faulted → q.steps = p.steps + k → k < n →
      Announces p n (.error e, q)

variable {σ : Type} {p q : Processor σ} {e : Exception} {n : Nat} {o : Outcome σ RunOutcome}

theorem steps_checkStop (p : Processor σ) : p.checkStop.steps = p.steps := (Accounts.checkStop p).steps

theorem status_checkStop_of_faulted (h : p.status = .faulted) : p.checkStop.status = .faulted := by
  rw [checkStop_of_not_running (by rw [h]; exact nofun), h]

theorem status_checkStop_of_not_faulted (h : p.status ≠ .faulted) : p.checkStop.status ≠ .faulted := by
  unfold checkStop halt
  split
  · split
    · exact nofun
    · exact h
  · exact h

theorem eq_running_of_ne {s : Status} (hh : s ≠ .halted) (hf : s ≠ .faulted) : s = .running := by
  cases s with
  | running => rfl
  | halted => exact absurd rfl hh
  | faulted => exact absurd rfl hf

theorem retired_of_step (hs : p.step = (.ok (), q)) : q.status = .running ∧ q.steps = p.steps + 1 := by
  have h := p.stepping
  rw [hs] at h
  cases h with
  | retired _ hq _ hn => exact ⟨hq, hn⟩

theorem faulted_of_step (hh : p.status ≠ .halted) (hs : p.step = (.error e, q)) :
    q.status = .faulted ∧ q.steps = p.steps := by
  have h := p.stepping
  rw [hs] at h
  cases h with
  | refused hr =>
    by_contra hn
    exact hr (eq_running_of_ne hh fun hf => hn ⟨hf, rfl⟩)
  | faulted _ hq _ hn => exact ⟨hq, hn⟩

theorem announces_of_halted (h : p.checkStop.status = .halted) (n : Nat) :
    p.Announces n (p.runFor n) := by
  rw [runFor_of_halted h]
  exact .halted 0 h p.steps_checkStop (Nat.zero_le n)

theorem Announces.succ (h : q.Announces n o) (hq : q.steps = p.steps + 1) : p.Announces (n + 1) o := by
  cases h with
  | budgetExhausted hs hn => exact .budgetExhausted hs (by omega)
  | halted k hs hn hk => exact .halted (k + 1) hs (by omega) (Nat.succ_le_succ hk)
  | failed k hs hn hk => exact .failed (k + 1) hs (by omega) (Nat.succ_lt_succ hk)

theorem announces_runFor (h : p.status = .faulted → 0 < n) : p.Announces n (p.runFor n) := by
  induction n generalizing p with
  | zero =>
    have hf := status_checkStop_of_not_faulted fun hf => Nat.lt_irrefl 0 (h hf)
    by_cases hh : p.checkStop.status = .halted
    · exact announces_of_halted hh 0
    · rw [runFor_zero_of_not_halted hh]
      exact .budgetExhausted (eq_running_of_ne hh hf) p.steps_checkStop
  | succ n ih =>
    cases p.round with
    | halted hh => exact announces_of_halted hh _
    | failed hh hs =>
      obtain ⟨hq, hn⟩ := faulted_of_step hh hs
      rw [runFor_succ_of_error hh hs]
      exact .failed 0 hq (hn.trans p.steps_checkStop) (Nat.succ_pos n)
    | stepped hh hs =>
      obtain ⟨hq, hn⟩ := retired_of_step hs
      rw [runFor_succ_of_ok hh hs]
      refine Announces.succ (ih fun hf => ?_) (by rw [hn, steps_checkStop])
      rw [hq] at hf
      cases hf

theorem runFor_zero_of_faulted (h : p.status = .faulted) :
    p.runFor 0 = (.ok .budgetExhausted, p) := by
  have hh : p.checkStop.status ≠ .halted := by
    rw [status_checkStop_of_faulted h]
    exact nofun
  rw [runFor_zero_of_not_halted hh, checkStop_of_not_running (by rw [h]; exact nofun)]

/-- A bounded run leaves the processor in the status that its result announces, and retires as many
instructions as that allows, except that a processor which has faulted answers a budget of zero as if it
were still running. -/
theorem announces_runFor_iff (p : Processor σ) (n : Nat) :
    (p.Announces n (p.runFor n) ↔ (p.status = .faulted → 0 < n)) ∧
      (p.status = .faulted → p.runFor 0 = (.ok .budgetExhausted, p)) := by
  refine ⟨⟨fun h hf => ?_, announces_runFor⟩, runFor_zero_of_faulted⟩
  cases n with
  | succ n => exact Nat.succ_pos n
  | zero =>
    rw [runFor_zero_of_faulted hf] at h
    cases h with
    | budgetExhausted hq _ =>
      rw [hf] at hq
      cases hq

theorem announces_runFor_ecall :
    let hook : Hook Unit := fun _ m => ⟨(), m, true, none⟩
    let memory := (Memory.empty 8 (Nat.succ_pos 7)).push
      (.image (.ofArray #[0x93, 0x00, 0x50, 0x00, 0x73, 0, 0, 0]))
    let p := start .base ⟨hook, hook⟩ () (.ofMemory memory)
    (p.status = .faulted → 0 < 2) ∧ p.Announces 2 (p.runFor 2) ∧ (p.runFor 2).1 = .ok .halted ∧
      p.Announces 1 (p.runFor 1) ∧ (p.runFor 1).1 = .ok .budgetExhausted := by
  intro hook memory p
  have hp : p.status = .running := by rfl
  have hrun (n : Nat) : p.Announces n (p.runFor n) :=
    (announces_runFor_iff p n).1.2 fun hf => absurd (hp.symm.trans hf) nofun
  exact ⟨fun _ => Nat.two_pos, hrun 2, by decide +kernel, hrun 1, by decide +kernel⟩

theorem not_announces_runFor_zero :
    let hook : Hook Unit := fun _ m => ⟨(), m, false, none⟩
    let memory := (Memory.empty 256 (Nat.succ_pos 255)).push .zero
    let p := (start .base ⟨hook, hook⟩ () (.ofMemory memory)).step.2
    p.status = .faulted ∧ (p.runFor 0).1 = .ok .budgetExhausted ∧ ¬ p.Announces 0 (p.runFor 0) := by
  intro hook memory p
  have hp : p.status = .faulted := by decide +kernel
  rw [runFor_zero_of_faulted hp]
  refine ⟨hp, rfl, fun h => ?_⟩
  cases h with
  | budgetExhausted hq _ => cases hq.symm.trans hp

end Hart.Processor
