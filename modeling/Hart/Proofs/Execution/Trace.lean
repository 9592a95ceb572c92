import Hart.Proofs.Execution.Budget

namespace Hart

structure Execution where
  instruction : Instruction
  before : Machine
  after : Machine
  failure? : Option Exception

namespace Processor

def reply (p : Processor σ) (i : Instruction) : Reply σ Exception :=
  i.descriptor.action.execute p.hooks p.host p.machine i.operands

def execution (p : Processor σ) (i : Instruction) : Execution :=
  ⟨i, p.machine, (p.reply i).machine, (p.reply i).failure?⟩

def next (p : Processor σ) (i : Instruction) : Processor σ :=
  { p with
    machine := (p.reply i).machine, host := (p.reply i).host,
    stopRequested := p.stopRequested || (p.reply i).stop, steps := p.steps + 1 }

def faulted (p : Processor σ) (i : Instruction) (e : Exception) : Processor σ :=
  { p with
    machine := (p.reply i).machine, host := (p.reply i).host,
    stopRequested := p.stopRequested || (p.reply i).stop }.raise e

def executions : Nat → Processor σ → List Execution
  | 0, _ => []
  | n + 1, p =>
    let q := p.checkStop
    if q.status = .running then
      match q.machine.fetch q.table with
      | .error _ => []
      | .ok i => q.execution i :: executions n q.step.2
    else []

def Lost (p : Processor σ) : Prop := ∀ i, p.status = .running → p.machine.fetch p.table ≠ .ok i

inductive Runs : Processor σ → Nat → List Execution → Outcome σ RunOutcome → Prop
  | halted (p : Processor σ) : p.checkStop.status = .halted → Runs p n [] (.ok .halted, p.checkStop)
  | exhausted (p : Processor σ) : p.checkStop.status ≠ .halted →
      Runs p 0 [] (.ok .budgetExhausted, p.checkStop)
  | lost (p : Processor σ) : p.checkStop.status ≠ .halted → p.checkStop.Lost →
      p.checkStop.step = (.error e, q) → Runs p (n + 1) [] (.error e, q)
  | failed (p : Processor σ) (i : Instruction) : p.checkStop.status = .running →
      p.checkStop.machine.fetch p.checkStop.table = .ok i →
      (p.checkStop.reply i).failure? = some e → p.checkStop.step = (.error e, q) →
      Runs p (n + 1) [p.checkStop.execution i] (.error e, q)
  | retired (p : Processor σ) (i : Instruction) : p.checkStop.status = .running →
      p.checkStop.machine.fetch p.checkStop.table = .ok i →
      (p.checkStop.reply i).failure? = none → Runs (p.checkStop.next i) n es o →
      Runs p (n + 1) (p.checkStop.execution i :: es) o

variable {σ : Type} {p q t : Processor σ} {e : Exception} {i : Instruction} {n : Nat}
  {es : List Execution} {o : Outcome σ RunOutcome}

theorem step_of_failed (hr : p.status = .running) (hf : p.machine.fetch p.table = .ok i)
    (hx : (p.reply i).failure? = some e) : p.step = (.error e, p.faulted i e) := by
  rw [step_of_fetch_ok hr hf, ← reply, accept_of_some hx, faulted]

theorem step_of_retired (hr : p.status = .running) (hf : p.machine.fetch p.table = .ok i)
    (hx : (p.reply i).failure? = none) : p.step = (.ok (), p.next i) := by
  rw [step_of_fetch_ok hr hf, ← reply, accept_of_none hx, next]

theorem executions_of_lost (h : p.checkStop.Lost) (n : Nat) : p.executions n = [] := by
  cases n with
  | zero => rfl
  | succ n =>
    rw [executions]
    split
    · next hr =>
      split
      · rfl
      · next i hf => exact absurd hf (h i hr)
    · rfl

theorem executions_of_not_running (h : p.checkStop.status ≠ .running) (n : Nat) :
    p.executions n = [] :=
  executions_of_lost (fun _ hr => absurd hr h) n

theorem executions_succ (hr : p.checkStop.status = .running)
    (hf : p.checkStop.machine.fetch p.checkStop.table = .ok i) (n : Nat) :
    p.executions (n + 1) = p.checkStop.execution i :: p.checkStop.step.2.executions n := by
  rw [executions, if_pos hr, hf]

theorem executions_of_failed (hr : p.checkStop.status = .running)
    (hf : p.checkStop.machine.fetch p.checkStop.table = .ok i)
    (hs : p.checkStop.step = (.error e, q)) (n : Nat) :
    p.executions (n + 1) = [p.checkStop.execution i] := by
  have hq : q.status = .faulted := (faulted_of_step (by rw [hr]; exact nofun) hs).1
  have hnil : q.executions n = [] :=
    executions_of_not_running (by rw [status_checkStop_of_faulted hq]; exact nofun) n
  rw [executions_succ hr hf, hs, hnil]

theorem runs (p : Processor σ) (n : Nat) : p.Runs n (p.executions n) (p.runFor n) := by
  induction n generalizing p with
  | zero =>
    by_cases hh : p.checkStop.status = .halted
    · rw [runFor_of_halted hh]
      exact .halted p hh
    · rw [runFor_zero_of_not_halted hh]
      exact .exhausted p hh
  | succ n ih =>
    by_cases hr : p.checkStop.status = .running
    · have hh : p.checkStop.status ≠ .halted := by rw [hr]; exact nofun
      cases hf : p.checkStop.machine.fetch p.checkStop.table with
      | error e =>
        have hs := step_of_fetch_error hr hf
        have hlost : p.checkStop.Lost := by
          intro i _ h
          cases hf.symm.trans h
        rw [runFor_succ_of_error hh hs, executions_of_lost hlost]
        exact .lost p hh hlost hs
      | ok i =>
        cases hx : (p.checkStop.reply i).failure? with
        | some e =>
          have hs := step_of_failed hr hf hx
          rw [runFor_succ_of_error hh hs, executions_of_failed hr hf hs]
          exact .failed p i hr hf hx hs
        | none =>
          have hs := step_of_retired hr hf hx
          rw [runFor_succ_of_ok hh hs, executions_succ hr hf, hs]
          exact .retired p i hr hf hx (ih _)
    · rw [executions_of_not_running hr]
      by_cases hh : p.checkStop.status = .halted
      · rw [runFor_of_halted hh]
        exact .halted p hh
      · have hs : p.checkStop.step = (.error (.notRunning p.checkStop.status), p.checkStop) := by
          rw [step, if_neg hr]
        rw [runFor_succ_of_error hh hs]
        exact .lost p hh (fun _ h => absurd h hr) hs

theorem take_executions (p : Processor σ) (n m : Nat) :
    (p.executions (n + m)).take n = p.executions n := by
  induction n generalizing p with
  | zero => rfl
  | succ n ih =>
    by_cases hlost : p.checkStop.Lost
    · rw [executions_of_lost hlost, executions_of_lost hlost, List.take_nil]
    · simp only [Lost, ne_eq, Classical.not_forall, Classical.not_not] at hlost
      obtain ⟨i, hr, hf⟩ := hlost
      rw [Nat.succ_add, executions_succ hr hf, executions_succ hr hf, List.take_succ_cons, ih]

theorem forall_mem_dropLast_cons {P : Execution → Prop} {x : Execution} (hx : P x)
    (h : ∀ y ∈ es.dropLast, P y) : ∀ y ∈ (x :: es).dropLast, P y := by
  cases es with
  | nil =>
    intro y hy
    cases hy
  | cons z zs => exact List.forall_mem_cons.2 ⟨hx, h⟩

namespace Runs

theorem eq_of_halted (h : p.Runs n es o) (hh : p.checkStop.status = .halted) :
    es = [] ∧ o = (.ok .halted, p.checkStop) := by
  cases h with
  | halted => exact ⟨rfl, rfl⟩
  | exhausted _ hn => exact absurd hh hn
  | lost _ hn => exact absurd hh hn
  | failed _ _ hr | retired _ _ hr =>
    rw [hr] at hh
    cases hh

theorem failure?_of_mem_dropLast (h : p.Runs n es o) : ∀ x ∈ es.dropLast, x.failure? = none := by
  induction h with
  | halted | exhausted | lost | failed =>
    intro x hx
    cases hx
  | retired _ _ _ _ hx _ ih => exact forall_mem_dropLast_cons hx ih

theorem executions_of_ended (h : p.Runs n es o) (ho : o.1 ≠ .ok .budgetExhausted) (m : Nat) :
    p.executions (n + m) = es := by
  induction h with
  | halted _ hh => exact executions_of_not_running (by rw [hh]; exact nofun) _
  | exhausted => exact absurd rfl ho
  | lost _ _ hlost => exact executions_of_lost hlost _
  | failed _ _ hr hf _ hs =>
    rw [Nat.succ_add]
    exact executions_of_failed hr hf hs _
  | retired _ _ hr hf hx _ ih =>
    rw [Nat.succ_add, executions_succ hr hf, step_of_retired hr hf hx, ih ho]

theorem steps_of_ok {r : RunOutcome} (h : p.Runs n es (.ok r, q)) : q.steps = p.steps + es.length := by
  generalize ho : (Except.ok r, q) = o at h
  induction h with
  | halted => cases ho; exact steps_checkStop _
  | exhausted => cases ho; exact steps_checkStop _
  | lost => cases ho
  | failed => cases ho
  | retired p i _ _ _ _ ih =>
    have hnext : (p.checkStop.next i).steps = p.steps + 1 := congrArg (· + 1) p.steps_checkStop
    rw [ih ho, hnext, List.length_cons]
    omega

end Runs

theorem executions_of_ended (h : p.runFor n = o) (ho : o.1 ≠ .ok .budgetExhausted) (m : Nat) :
    p.executions (n + m) = p.executions n :=
  (p.runs n).executions_of_ended (by rwa [h]) m

structure HaltsAfter (p : Processor σ) (s : Nat) (t : Processor σ) : Prop where
  steps : t.steps = p.steps + s
  runFor : p.runFor s = (.ok .halted, t)
  less : ∀ m < s, ∃ q, p.runFor m = (.ok .budgetExhausted, q)

theorem haltsAfter_zero (h : p.checkStop.status = .halted) : p.HaltsAfter 0 p.checkStop :=
  ⟨steps_checkStop p, runFor_of_halted h 0, fun _ hm => absurd hm (Nat.not_lt_zero _)⟩

theorem HaltsAfter.succ {s : Nat} (hh : p.checkStop.status ≠ .halted)
    (hs : p.checkStop.step = (.ok (), q)) (h : q.HaltsAfter s t) : p.HaltsAfter (s + 1) t where
  steps := by
    rw [h.steps, (retired_of_step hs).2, steps_checkStop]
    omega
  runFor := (runFor_succ_of_ok hh hs s).trans h.runFor
  less m hm := by
    cases m with
    | zero => exact ⟨_, runFor_zero_of_not_halted hh⟩
    | succ m =>
      rw [runFor_succ_of_ok hh hs]
      exact h.less m (Nat.lt_of_succ_lt_succ hm)

theorem HaltsAfter.length_executions {s : Nat} (h : p.HaltsAfter s t) :
    (p.executions s).length = s := by
  have hruns := p.runs s
  rw [h.runFor] at hruns
  exact Nat.add_left_cancel (hruns.steps_of_ok.symm.trans h.steps)

theorem exists_haltsAfter (h : p.runFor n = (.ok .halted, t)) : ∃ s, p.HaltsAfter s t := by
  induction n generalizing p with
  | zero =>
    by_cases hh : p.checkStop.status = .halted
    · rw [runFor_of_halted hh] at h
      cases h
      exact ⟨0, haltsAfter_zero hh⟩
    · rw [runFor_zero_of_not_halted hh] at h
      cases h
  | succ n ih =>
    cases p.round with
    | halted hh =>
      rw [runFor_of_halted hh] at h
      cases h
      exact ⟨0, haltsAfter_zero hh⟩
    | failed hh hs =>
      rw [runFor_succ_of_error hh hs] at h
      cases h
    | stepped hh hs =>
      rw [runFor_succ_of_ok hh hs] at h
      obtain ⟨s, hq⟩ := ih h
      exact ⟨s + 1, hq.succ hh hs⟩

end Processor

end Hart
