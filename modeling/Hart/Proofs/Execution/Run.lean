import Hart.Proofs.Execution.Failure
import Mathlib.Control.Monad.Basic

/-! Bounded and unbounded runs. A bounded run that exhausts its budget can be taken up where it ended, one
that ended otherwise stays as it is, and an unbounded run ends exactly as some bounded run does. The
calls of the host are part of this: they are told by hooks that log them. -/

namespace Hart

inductive Call (σ : Type)
  | systemCall (host : σ) (machine : Machine)
  | systemBreak (host : σ) (machine : Machine)

def Hook.logged (hook : Hook σ) (call : σ → Machine → Call σ) : Hook (σ × List (Call σ)) :=
  fun (host, log) m =>
    let r := hook host m
    ⟨(r.host, log ++ [call host m]), r.machine, r.stop, r.failure?⟩

def Hooks.logged (hooks : Hooks σ) : Hooks (σ × List (Call σ)) :=
  ⟨hooks.systemCall.logged .systemCall, hooks.systemBreak.logged .systemBreak⟩

def Reply.logged (r : Reply σ ε) (log : List (Call σ)) : Reply (σ × List (Call σ)) ε :=
  ⟨(r.host, log), r.machine, r.stop, r.failure?⟩

def Action.calls (host : σ) (m : Machine) : {f : Format} → Action f → List (Call σ)
  | _, .systemCall => [.systemCall host m]
  | _, .systemBreak => [.systemBreak host m]
  | _, _ => []

theorem Hook.call_logged (hook : Hook σ) (call : σ → Machine → Call σ) (host : σ)
    (log : List (Call σ)) (m : Machine) :
    (hook.logged call).call (host, log) m = (hook.call host m).logged (log ++ [call host m]) := by
  simp only [Hook.call, Hook.logged]
  cases (hook host m).failure? <;> rfl

theorem Action.execute_logged {f : Format} (a : Action f) (p : Operands f) (hooks : Hooks σ) (host : σ)
    (log : List (Call σ)) (m : Machine) : a.execute hooks.logged (host, log) m p =
      (a.execute hooks host m p).logged (log ++ a.calls host m) := by
  cases a with
  | systemCall => exact hooks.systemCall.call_logged .systemCall host log m
  | systemBreak => exact hooks.systemBreak.call_logged .systemBreak host log m
  | load width signed =>
    cases p with
    | immediate rd rs1 imm =>
      simp only [calls, execute, List.append_nil]
      cases m.memory.peek width (m.read rs1 + imm) <;> rfl
  | store width =>
    cases p with
    | store rs1 rs2 imm =>
      simp only [calls, execute, List.append_nil]
      cases m.memory.poke width (m.read rs1 + imm) (m.read rs2) <;> rfl
  | compute | jumpRegister | branch | jump | loadUpper | addUpper =>
    cases p
    simp only [calls, List.append_nil]
    rfl

namespace Processor

inductive Round (p : Processor σ) : Prop
  | halted : p.checkStop.status = .halted → Round p
  | failed : p.checkStop.status ≠ .halted → p.checkStop.step = (.error e, q) → Round p
  | stepped : p.checkStop.status ≠ .halted → p.checkStop.step = (.ok (), q) → Round p

variable {σ : Type} {p q t : Processor σ} {e : Exception} {n : Nat}

def logged (p : Processor σ) (log : List (Call σ)) : Processor (σ × List (Call σ)) :=
  ⟨p.table, p.hooks.logged, (p.host, log), p.machine, p.status, p.fault?, p.steps, p.stopRequested⟩

def calls (p : Processor σ) (n : Nat) : List (Call σ) := ((p.logged []).runFor n).2.host.2

@[simp] theorem checkStop_checkStop (p : Processor σ) : p.checkStop.checkStop = p.checkStop := by
  obtain ⟨_, _, _, _, status, _, _, stop⟩ := p
  cases stop <;> cases status <;> rfl

/-- A run calls the host only while no stop is requested, which is why a hook is not given that flag. -/
theorem stopRequested_of_running (h : p.checkStop.status = .running) :
    p.checkStop.stopRequested = false := by
  obtain ⟨_, _, _, _, status, _, _, stop⟩ := p
  cases stop with
  | false => rfl
  | true => cases status <;> cases h

theorem checkStop_logged (p : Processor σ) (log : List (Call σ)) :
    (p.logged log).checkStop = p.checkStop.logged log := by
  obtain ⟨_, _, _, _, status, _, _, stop⟩ := p
  cases stop <;> cases status <;> rfl

theorem accept_logged (p : Processor σ) (r : Reply σ Exception) (log log' : List (Call σ)) :
    (p.logged log).accept (r.logged log') = ((p.accept r).1, (p.accept r).2.logged log') := by
  cases hf : r.failure? with
  | none =>
    have hf' : (r.logged log').failure? = none := hf
    rw [accept_of_none hf, accept_of_none hf']
    rfl
  | some e =>
    have hf' : (r.logged log').failure? = some e := hf
    rw [accept_of_some hf, accept_of_some hf']
    rfl

theorem step_logged (p : Processor σ) : ∃ calls, ∀ log,
    (p.logged log).step = (p.step.1, p.step.2.logged (log ++ calls)) := by
  by_cases hr : p.status = .running
  · have hr' (log : List (Call σ)) : (p.logged log).status = .running := hr
    cases hf : p.machine.fetch p.table with
    | error e =>
      refine ⟨[], fun log => ?_⟩
      have hf' : (p.logged log).machine.fetch (p.logged log).table = .error e := hf
      rw [step_of_fetch_error (hr' log) hf', step_of_fetch_error hr hf, List.append_nil]
      rfl
    | ok i =>
      refine ⟨i.descriptor.action.calls p.host p.machine, fun log => ?_⟩
      have hf' : (p.logged log).machine.fetch (p.logged log).table = .ok i := hf
      rw [step_of_fetch_ok (hr' log) hf', step_of_fetch_ok hr hf, ← accept_logged]
      exact congrArg (p.logged log).accept (Action.execute_logged _ _ _ _ _ _)
  · refine ⟨[], fun log => ?_⟩
    have hr' : (p.logged log).status ≠ .running := hr
    rw [step, if_neg hr', step, if_neg hr, List.append_nil]
    rfl

theorem round (p : Processor σ) : p.Round := by
  by_cases h : p.checkStop.status = .halted
  · exact .halted h
  · match hs : p.checkStop.step with
    | (.error e, q) => exact .failed h hs
    | (.ok (), q) => exact .stepped h hs

theorem runFor_of_halted (h : p.checkStop.status = .halted) (n : Nat) :
    p.runFor n = (.ok .halted, p.checkStop) := by
  cases n <;> simp only [runFor, if_pos h]

theorem runFor_zero_of_not_halted (h : p.checkStop.status ≠ .halted) :
    p.runFor 0 = (.ok .budgetExhausted, p.checkStop) := by
  rw [runFor, if_neg h]

theorem runFor_succ_of_ok (h : p.checkStop.status ≠ .halted) (hs : p.checkStop.step = (.ok (), q))
    (n : Nat) : p.runFor (n + 1) = q.runFor n := by
  rw [runFor, if_neg h, hs]

theorem runFor_succ_of_error (h : p.checkStop.status ≠ .halted) (hs : p.checkStop.step = (.error e, q))
    (n : Nat) : p.runFor (n + 1) = (.error e, q) := by
  rw [runFor, if_neg h, hs]

theorem run_of_halted (h : p.checkStop.status = .halted) : p.run = some (.ok (), p.checkStop) := by
  rw [run]
  exact if_pos h

theorem run_of_ok (h : p.checkStop.status ≠ .halted) (hs : p.checkStop.step = (.ok (), q)) :
    p.run = q.run := by
  rw [run]
  simp only [if_neg h, hs]

theorem run_of_error (h : p.checkStop.status ≠ .halted) (hs : p.checkStop.step = (.error e, q)) :
    p.run = some (.error e, q) := by
  rw [run]
  simp only [if_neg h, hs]

theorem runFor_checkStop (p : Processor σ) (n : Nat) : p.checkStop.runFor n = p.runFor n := by
  cases n <;> simp only [runFor, checkStop_checkStop]

def resume (m : Nat) : Outcome σ RunOutcome → Outcome σ RunOutcome
  | (.ok .budgetExhausted, q) => q.runFor m
  | o => o

theorem runFor_add (p : Processor σ) (n m : Nat) : p.runFor (n + m) = resume m (p.runFor n) := by
  induction n generalizing p with
  | zero =>
    rw [Nat.zero_add]
    by_cases hh : p.checkStop.status = .halted
    · rw [runFor_of_halted hh, runFor_of_halted hh]
      rfl
    · rw [runFor_zero_of_not_halted hh, ← runFor_checkStop]
      rfl
  | succ n ih =>
    rw [Nat.succ_add]
    cases p.round with
    | halted hh =>
      rw [runFor_of_halted hh, runFor_of_halted hh]
      rfl
    | failed hh hs =>
      rw [runFor_succ_of_error hh hs, runFor_succ_of_error hh hs]
      rfl
    | stepped hh hs =>
      rw [runFor_succ_of_ok hh hs, runFor_succ_of_ok hh hs]
      exact ih _

theorem status_logged (p : Processor σ) (log : List (Call σ)) :
    (p.logged log).checkStop.status = p.checkStop.status := by
  rw [checkStop_logged]
  rfl

theorem not_halted_logged (h : p.checkStop.status ≠ .halted) (log : List (Call σ)) :
    (p.logged log).checkStop.status ≠ .halted := by
  rw [status_logged]
  exact h

theorem checkStop_step_logged (p : Processor σ) : ∃ calls, ∀ log, (p.logged log).checkStop.step =
    (p.checkStop.step.1, p.checkStop.step.2.logged (log ++ calls)) := by
  obtain ⟨calls, h⟩ := p.checkStop.step_logged
  refine ⟨calls, fun log => ?_⟩
  rw [checkStop_logged, h]

theorem runFor_logged_of_halted (h : p.checkStop.status = .halted) (n : Nat) (log : List (Call σ)) :
    (p.logged log).runFor n = (.ok .halted, p.checkStop.logged log) := by
  rw [runFor_of_halted (by rw [status_logged, h]), checkStop_logged]

theorem exists_runFor_logged (n : Nat) (p : Processor σ) : ∃ calls, ∀ log,
    (p.logged log).runFor n = ((p.runFor n).1, (p.runFor n).2.logged (log ++ calls)) := by
  induction n generalizing p with
  | zero =>
    refine ⟨[], fun log => ?_⟩
    rw [List.append_nil]
    by_cases hh : p.checkStop.status = .halted
    · rw [runFor_logged_of_halted hh, runFor_of_halted hh]
    · rw [runFor_zero_of_not_halted (not_halted_logged hh log), runFor_zero_of_not_halted hh,
        checkStop_logged]
  | succ n ih =>
    -- The calls of the first round come before those of the rounds after it.
    obtain ⟨calls, hstep⟩ := p.checkStop_step_logged
    cases p.round with
    | halted hh =>
      refine ⟨[], fun log => ?_⟩
      rw [runFor_logged_of_halted hh, runFor_of_halted hh, List.append_nil]
    | failed hh hs =>
      refine ⟨calls, fun log => ?_⟩
      rw [hs] at hstep
      rw [runFor_succ_of_error (not_halted_logged hh log) (hstep log), runFor_succ_of_error hh hs]
    | stepped hh hs =>
      obtain ⟨calls', hr⟩ := ih _
      refine ⟨calls ++ calls', fun log => ?_⟩
      rw [hs] at hstep
      rw [runFor_succ_of_ok (not_halted_logged hh log) (hstep log), runFor_succ_of_ok hh hs, hr,
        List.append_assoc]

theorem runFor_logged (p : Processor σ) (n : Nat) (log : List (Call σ)) :
    (p.logged log).runFor n = ((p.runFor n).1, (p.runFor n).2.logged (log ++ p.calls n)) := by
  obtain ⟨calls, h⟩ := exists_runFor_logged n p
  have hc : p.calls n = calls := by
    rw [Processor.calls, h]
    exact List.nil_append calls
  rw [h, hc]

def ending? : Outcome σ RunOutcome → Option (Outcome σ Unit)
  | (.ok .halted, q) => some (.ok (), q)
  | (.ok .budgetExhausted, _) => none
  | (.error e, q) => some (.error e, q)

theorem exists_ending?_of_run {o : Outcome σ Unit} (h : p.run = some o) :
    ∃ n, ending? (p.runFor n) = some o := by
  -- The induction is on the approximations of the run: what one that ends says of `p` is its end.
  refine run.partial_correctness (fun p o => ∃ n, ending? (p.runFor n) = some o) ?_ p o h
  intro next ih p o h
  cases p.round with
  | halted hh =>
    simp only [if_pos hh] at h
    refine ⟨0, ?_⟩
    rw [runFor_of_halted hh]
    exact h
  | failed hh hs =>
    simp only [if_neg hh, hs] at h
    refine ⟨1, ?_⟩
    rw [runFor_succ_of_error hh hs]
    exact h
  | stepped hh hs =>
    simp only [if_neg hh, hs] at h
    obtain ⟨n, hn⟩ := ih _ _ h
    refine ⟨n + 1, ?_⟩
    rw [runFor_succ_of_ok hh hs]
    exact hn

theorem run_of_ending? {o : Outcome σ Unit} {n : Nat} (h : ending? (p.runFor n) = some o) :
    p.run = some o := by
  induction n generalizing p with
  | zero =>
    by_cases hh : p.checkStop.status = .halted
    · rw [runFor_of_halted hh] at h
      rw [run_of_halted hh]
      exact h
    · rw [runFor_zero_of_not_halted hh] at h
      cases h
  | succ n ih =>
    cases p.round with
    | halted hh =>
      rw [runFor_of_halted hh] at h
      rw [run_of_halted hh]
      exact h
    | failed hh hs =>
      rw [runFor_succ_of_error hh hs] at h
      rw [run_of_error hh hs]
      exact h
    | stepped hh hs =>
      rw [runFor_succ_of_ok hh hs] at h
      rw [run_of_ok hh hs]
      exact ih h

theorem run_eq_some_iff {o : Outcome σ Unit} :
    p.run = some o ↔ ∃ n, ending? (p.runFor n) = some o :=
  ⟨exists_ending?_of_run, fun ⟨_, h⟩ => run_of_ending? h⟩

theorem ending?_eq_ok_iff {o : Outcome σ RunOutcome} :
    ending? o = some (.ok (), t) ↔ o = (.ok .halted, t) := by
  match o with
  | (.ok .halted, q) => simp [ending?]
  | (.ok .budgetExhausted, q) => simp [ending?]
  | (.error e, q) => simp [ending?]

theorem ending?_eq_error_iff {o : Outcome σ RunOutcome} :
    ending? o = some (.error e, t) ↔ o = (.error e, t) := by
  match o with
  | (.ok .halted, q) => simp [ending?]
  | (.ok .budgetExhausted, q) => simp [ending?]
  | (.error e, q) => simp [ending?]

theorem calls_add (h : p.runFor n = (.ok .budgetExhausted, q)) (m : Nat) :
    p.calls (n + m) = p.calls n ++ q.calls m := by
  rw [calls, runFor_add, runFor_logged, h]
  simp only [resume, runFor_logged, List.nil_append]
  rfl

theorem resume_of_ended {o : Except Exception RunOutcome} (h : o ≠ .ok .budgetExhausted) (m : Nat)
    (q : Processor σ) : resume m (o, q) = (o, q) := by
  match o with
  | .ok .halted => rfl
  | .ok .budgetExhausted => exact absurd rfl h
  | .error e => rfl

theorem calls_of_ended {o : Except Exception RunOutcome} (h : p.runFor n = (o, q))
    (ho : o ≠ .ok .budgetExhausted) (m : Nat) : p.calls (n + m) = p.calls n := by
  rw [calls, runFor_add, runFor_logged, h, resume_of_ended ho]
  rfl

/-- A bounded run that exhausts its budget goes on as the run from its last state, and calls the host as
that does; one that was halted or failed stays as it is with a larger budget. The unbounded run ends
exactly as some bounded run does. A log of the calls shows in nothing else. -/
theorem runFor_resumes (p : Processor σ) :
    (∀ n m q, p.runFor n = (.ok .budgetExhausted, q) →
      p.runFor (n + m) = q.runFor m ∧ p.calls (n + m) = p.calls n ++ q.calls m) ∧
    (∀ n m o q, p.runFor n = (o, q) → o ≠ .ok .budgetExhausted →
      p.runFor (n + m) = (o, q) ∧ p.calls (n + m) = p.calls n) ∧
    (∀ n log, (p.logged log).runFor n =
      ((p.runFor n).1, (p.runFor n).2.logged (log ++ p.calls n))) ∧
    (∀ t, p.run = some (.ok (), t) ↔ ∃ n, p.runFor n = (.ok .halted, t)) ∧
    ∀ e t, p.run = some (.error e, t) ↔ ∃ n, p.runFor n = (.error e, t) := by
  refine ⟨fun n m q h => ⟨?_, calls_add h m⟩, fun n m o q h ho => ⟨?_, calls_of_ended h ho m⟩,
    p.runFor_logged, fun t => ?_, fun e t => ?_⟩
  · rw [runFor_add, h]
    rfl
  · rw [runFor_add, h, resume_of_ended ho]
  · simp only [run_eq_some_iff, ending?_eq_ok_iff]
  · simp only [run_eq_some_iff, ending?_eq_error_iff]

theorem runFor_resumes_ecall :
    let hook : Hook Nat := fun n m => ⟨n + 1, m, true, none⟩
    let memory := (Memory.empty 8 (Nat.succ_pos 7)).push
      (.image (.ofArray #[0x93, 0x00, 0x50, 0x00, 0x73, 0, 0, 0]))
    let p := start .base ⟨hook, hook⟩ 0 (.ofMemory memory)
    ∃ q t, p.runFor 1 = (.ok .budgetExhausted, q) ∧ q.runFor 1 = (.ok .halted, t) ∧ t.host = 1 ∧
      p.runFor (1 + 1) = (.ok .halted, t) ∧ p.calls (1 + 1) = p.calls 1 ++ q.calls 1 ∧
      p.runFor (1 + 1 + 7) = (.ok .halted, t) ∧ p.run = some (.ok (), t) := by
  intro hook memory p
  have hq : p.runFor 1 = (.ok .budgetExhausted, (p.runFor 1).2) := Prod.ext (by decide +kernel) rfl
  have ht : (p.runFor 1).2.runFor 1 = (.ok .halted, ((p.runFor 1).2.runFor 1).2) :=
    Prod.ext (by decide +kernel) rfl
  obtain ⟨hresume, hended, _, hrun, _⟩ := runFor_resumes p
  obtain ⟨hadd, hcalls⟩ := hresume 1 1 _ hq
  have htwo := hadd.trans ht
  exact ⟨_, _, hq, ht, by decide +kernel, htwo, hcalls, (hended (1 + 1) 7 _ _ htwo nofun).1,
    (hrun _).2 ⟨_, htwo⟩⟩

end Processor

end Hart
