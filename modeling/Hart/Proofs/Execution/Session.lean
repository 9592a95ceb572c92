import Hart.Proofs.Execution.Run

/-! Sessions: what the host does with a processor, one operation after another. The step count is the
number of steps that succeeded, and a fault is stored exactly in a processor that has faulted. A
processor that was halted or has faulted stays as it is, and calls the host no more. -/

namespace Hart

inductive Request
  | step
  | run
  | runFor (n : Nat)
  | halt
  | stop

inductive HostOperation (σ : Type)
  | request (r : Request)
  | edit (f : σ → Machine → σ × Machine)

def HostOperation.logged : HostOperation σ → HostOperation (σ × List (Call σ))
  | .request r => .request r
  | .edit f => .edit fun (host, log) m => (((f host m).1, log), (f host m).2)

namespace Processor

def runForTold : Nat → Processor σ → List (Except Exception Unit) × Outcome σ RunOutcome
  | 0, p => ([], p.runFor 0)
  | n + 1, p =>
    let q := p.checkStop
    if q.status = .halted then ([], (.ok .halted, q))
    else match q.step with
      | (.ok (), r) =>
        let (answers, o) := runForTold n r
        (.ok () :: answers, o)
      | (.error e, r) => ([.error e], (.error e, r))

/-- The processor `p` serves a request and becomes `q`, executing steps with the answers `as`. An
unbounded run is served if it ends, and then its steps are those of a bounded run that ends so. -/
inductive Serves (p : Processor σ) :
    Request → List (Except Exception Unit) → Processor σ → Prop
  | step : Serves p .step [p.step.1] p.step.2
  | run : p.run = some o → ending? (p.runForTold n).2 = some o →
      Serves p .run (p.runForTold n).1 o.2
  | runFor (n : Nat) : Serves p (.runFor n) (p.runForTold n).1 (p.runForTold n).2.2
  | halt : Serves p .halt [] p.halt
  | stop : Serves p .stop [] p.requestStop

def edit (p : Processor σ) (f : σ → Machine → σ × Machine) : Processor σ :=
  { p with host := (f p.host p.machine).1, machine := (f p.host p.machine).2 }

/-- The host's operations take one processor to another, executing steps with the given answers. -/
inductive Session : Processor σ → List (HostOperation σ) → List (Except Exception Unit) →
    Processor σ → Prop
  | nil (p : Processor σ) : Session p [] [] p
  | request : Serves p r as q → Session q ops bs t → Session p (.request r :: ops) (as ++ bs) t
  | edit : Session (p.edit f) ops as q → Session p (.edit f :: ops) as q

def edited (p : Processor σ) (ops : List (HostOperation σ)) : Processor σ :=
  ops.foldl (fun p o => match o with
    | .request _ => p
    | .edit f => p.edit f) p

inductive Stepping (p : Processor σ) : Outcome σ Unit → Prop
  | refused : p.status ≠ .running → Stepping p (.error (.notRunning p.status), p)
  | retired : p.status = .running → q.status = .running → q.fault? = p.fault? →
      q.steps = p.steps + 1 → Stepping p (.ok (), q)
  | faulted : p.status = .running → q.status = .faulted → q.fault? = some e →
      q.steps = p.steps → Stepping p (.error e, q)

variable {σ : Type} {p q t : Processor σ} {e : Exception} {n : Nat} {as : List (Except Exception Unit)}

theorem runForTold_of_halted (h : p.checkStop.status = .halted) (n : Nat) :
    p.runForTold n = ([], (.ok .halted, p.checkStop)) := by
  cases n with
  | zero => rw [runForTold, runFor_of_halted h]
  | succ n => rw [runForTold, if_pos h]

theorem runForTold_succ_of_ok (h : p.checkStop.status ≠ .halted)
    (hs : p.checkStop.step = (.ok (), q)) (n : Nat) :
    p.runForTold (n + 1) = (.ok () :: (q.runForTold n).1, (q.runForTold n).2) := by
  rw [runForTold, if_neg h, hs]

theorem runForTold_succ_of_error (h : p.checkStop.status ≠ .halted)
    (hs : p.checkStop.step = (.error e, q)) (n : Nat) :
    p.runForTold (n + 1) = ([.error e], (.error e, q)) := by
  rw [runForTold, if_neg h, hs]

theorem runForTold_outcome (p : Processor σ) (n : Nat) : (p.runForTold n).2 = p.runFor n := by
  induction n generalizing p with
  | zero => rfl
  | succ n ih =>
    cases p.round with
    | halted h => rw [runForTold_of_halted h, runFor_of_halted h]
    | failed h hs => rw [runForTold_succ_of_error h hs, runFor_succ_of_error h hs]
    | stepped h hs => rw [runForTold_succ_of_ok h hs, runFor_succ_of_ok h hs, ih]

theorem stepping (p : Processor σ) : p.Stepping p.step := by
  by_cases hr : p.status = .running
  · cases hf : p.machine.fetch p.table with
    | error e =>
      rw [step_of_fetch_error hr hf]
      exact .faulted hr rfl rfl rfl
    | ok i =>
      rw [step_of_fetch_ok hr hf]
      cases hx : (i.descriptor.action.execute p.hooks p.host p.machine i.operands).failure? with
      | none =>
        rw [accept_of_none hx]
        exact .retired hr hr rfl rfl
      | some e =>
        rw [accept_of_some hx]
        exact .faulted hr rfl rfl rfl
  · rw [step, if_neg hr]
    exact .refused hr

def FaultStored (p : Processor σ) : Prop := p.fault?.isSome = true ↔ p.status = .faulted

structure Accounts (p : Processor σ) (as : List (Except Exception Unit)) (q : Processor σ) : Prop where
  fault : p.FaultStored → q.FaultStored
  steps : q.steps = p.steps + as.countP (·.isOk)

namespace Accounts

theorem refl (p : Processor σ) : p.Accounts [] p := ⟨id, rfl⟩

theorem trans {bs : List (Except Exception Unit)} (h : p.Accounts as q) (h' : q.Accounts bs t) :
    p.Accounts (as ++ bs) t where
  fault := h'.fault ∘ h.fault
  steps := by rw [h'.steps, h.steps, List.countP_append, Nat.add_assoc]

theorem halt (p : Processor σ) : p.Accounts [] p.halt := by
  unfold Processor.halt
  split
  · next hr =>
    refine ⟨fun h => ?_, rfl⟩
    have hn : ¬ p.fault?.isSome = true := by
      rw [h.eq, hr]
      exact nofun
    exact ⟨fun h => absurd h hn, nofun⟩
  · exact refl p

theorem checkStop (p : Processor σ) : p.Accounts [] p.checkStop := by
  unfold Processor.checkStop
  split
  · exact halt p
  · exact refl p

theorem step (p : Processor σ) : p.Accounts [p.step.1] p.step.2 := by
  cases hs : p.step with
  | mk r q =>
    have h := p.stepping
    rw [hs] at h
    cases h with
    | refused hr => exact ⟨id, rfl⟩
    | retired hr hq hf hn =>
      refine ⟨fun h => ?_, hn⟩
      rw [FaultStored, hf, hq, ← hr]
      exact h
    | faulted hr hq hf hn =>
      refine ⟨fun _ => ?_, hn⟩
      rw [FaultStored, hf, hq]
      exact ⟨fun _ => rfl, fun _ => rfl⟩

theorem checkStop_step {r : Except Exception Unit} (h : p.checkStop.step = (r, q)) :
    p.Accounts [r] q := by
  have hstep := (checkStop p).trans (step p.checkStop)
  rw [h] at hstep
  exact hstep

theorem runForTold (p : Processor σ) (n : Nat) :
    p.Accounts (p.runForTold n).1 (p.runForTold n).2.2 := by
  induction n generalizing p with
  | zero => exact checkStop p
  | succ n ih =>
    cases p.round with
    | halted h =>
      rw [runForTold_of_halted h]
      exact checkStop p
    | failed h hs =>
      rw [runForTold_succ_of_error h hs]
      exact checkStop_step hs
    | stepped h hs =>
      rw [runForTold_succ_of_ok h hs]
      exact (checkStop_step hs).trans (ih _)

end Accounts

theorem ending?_state {o : Outcome σ RunOutcome} {o' : Outcome σ Unit} (h : ending? o = some o') :
    o'.2 = o.2 := by
  match o with
  | (.ok .halted, q) => cases h; rfl
  | (.ok .budgetExhausted, q) => cases h
  | (.error e, q) => cases h; rfl

theorem Serves.accounts {r : Request} (h : p.Serves r as q) : p.Accounts as q := by
  cases h with
  | step => exact .step p
  | run hrun hend =>
    rw [ending?_state hend]
    exact .runForTold p _
  | runFor n => exact .runForTold p n
  | halt => exact .halt p
  | stop => exact ⟨id, rfl⟩

theorem Session.accounts {ops : List (HostOperation σ)} (h : Session p ops as q) :
    p.Accounts as q := by
  induction h with
  | nil p => exact .refl p
  | request hr _ ih => exact hr.accounts.trans ih
  | edit _ ih => exact ⟨ih.fault, ih.steps⟩

theorem step_of_not_running (h : p.status ≠ .running) : p.step = (.error (.notRunning p.status), p) :=
  if_neg h

theorem halt_of_not_running (h : p.status ≠ .running) : p.halt = p := if_neg h

theorem checkStop_of_not_running (h : p.status ≠ .running) : p.checkStop = p := by
  rw [checkStop, halt_of_not_running h, ite_self]

theorem checkStop_step_of_not_running (h : p.status ≠ .running) :
    p.checkStop.step = (.error (.notRunning p.status), p) := by
  rw [checkStop_of_not_running h, step_of_not_running h]

def withStop (p : Processor σ) (stop : Bool) : Processor σ := { p with stopRequested := stop }

structure Rests (p : Processor σ) (as : List (Except Exception Unit)) (q : Processor σ) : Prop where
  state : ∃ stop, q = p.withStop stop
  answers : ∀ a ∈ as, a = .error (.notRunning p.status)

theorem Rests.refl (p : Processor σ) : p.Rests [] p := ⟨⟨p.stopRequested, rfl⟩, nofun⟩

theorem Rests.refused (p : Processor σ) : p.Rests [.error (.notRunning p.status)] p :=
  ⟨⟨p.stopRequested, rfl⟩, fun _ ha => List.mem_singleton.1 ha⟩

theorem rests_runForTold (h : p.status ≠ .running) (n : Nat) :
    p.Rests (p.runForTold n).1 (p.runForTold n).2.2 := by
  have hr : p.Rests [] p.checkStop := by
    rw [checkStop_of_not_running h]
    exact .refl p
  cases n with
  | zero => exact hr
  | succ n =>
    by_cases hh : p.checkStop.status = .halted
    · rw [runForTold_of_halted hh]
      exact hr
    · rw [runForTold_succ_of_error hh (checkStop_step_of_not_running h)]
      exact .refused p

theorem Serves.rests {r : Request} (hs : p.Serves r as q) (h : p.status ≠ .running) :
    p.Rests as q := by
  cases hs with
  | step =>
    rw [step_of_not_running h]
    exact .refused p
  | run hrun hend =>
    rw [ending?_state hend]
    exact rests_runForTold h _
  | runFor n => exact rests_runForTold h n
  | halt =>
    rw [halt_of_not_running h]
    exact .refl p
  | stop => exact ⟨⟨true, rfl⟩, nofun⟩

theorem exists_serves (h : p.status ≠ .running) (r : Request) : ∃ as q, p.Serves r as q := by
  cases r with
  | step => exact ⟨_, _, .step⟩
  | run =>
    have hs := checkStop_step_of_not_running h
    by_cases hh : p.checkStop.status = .halted
    · refine ⟨_, _, .run (n := 1) (run_of_halted hh) ?_⟩
      rw [runForTold_of_halted hh]
      rfl
    · refine ⟨_, _, .run (n := 1) (run_of_error hh hs) ?_⟩
      rw [runForTold_succ_of_error hh hs]
      rfl
  | runFor n => exact ⟨_, _, .runFor n⟩
  | halt => exact ⟨_, _, .halt⟩
  | stop => exact ⟨_, _, .stop⟩

theorem edited_withStop (p : Processor σ) (stop : Bool) (ops : List (HostOperation σ)) :
    (p.withStop stop).edited ops = (p.edited ops).withStop stop := by
  induction ops generalizing p with
  | nil => rfl
  | cons o ops ih =>
    cases o with
    | request r => exact ih p
    | edit f => exact ih (p.edit f)

@[simp] theorem status_edited (p : Processor σ) (ops : List (HostOperation σ)) :
    (p.edited ops).status = p.status := by
  induction ops generalizing p with
  | nil => rfl
  | cons o ops ih =>
    cases o with
    | request r => exact ih p
    | edit f => exact ih (p.edit f)

theorem edited_logged (p : Processor σ) (log : List (Call σ)) (ops : List (HostOperation σ)) :
    (p.logged log).edited (ops.map .logged) = (p.edited ops).logged log := by
  induction ops generalizing p with
  | nil => rfl
  | cons o ops ih =>
    cases o with
    | request r => exact ih p
    | edit f => exact ih (p.edit f)

theorem Session.rests {ops : List (HostOperation σ)} (hs : Session p ops as q)
    (h : p.status ≠ .running) : (p.edited ops).Rests as q := by
  induction hs with
  | nil p => exact .refl p
  | @request p r as q ops bs t hr _ ih =>
    obtain ⟨⟨stop, rfl⟩, has⟩ := hr.rests h
    obtain ⟨⟨stop', rfl⟩, hbs⟩ := ih h
    rw [edited_withStop] at hbs ⊢
    refine ⟨⟨stop', rfl⟩, fun a ha => ?_⟩
    rcases List.mem_append.1 ha with ha | ha
    · rw [has a ha, status_edited]
    · exact hbs a ha
  | edit _ ih => exact ih h

theorem exists_session (h : p.status ≠ .running) (ops : List (HostOperation σ)) :
    ∃ as q, Session p ops as q := by
  induction ops generalizing p with
  | nil => exact ⟨_, _, .nil p⟩
  | cons o ops ih =>
    cases o with
    | request r =>
      obtain ⟨as, q, hr⟩ := exists_serves h r
      obtain ⟨⟨stop, rfl⟩, _⟩ := hr.rests h
      obtain ⟨bs, t, hs⟩ := @ih (p.withStop stop) h
      exact ⟨_, _, .request hr hs⟩
    | edit f =>
      obtain ⟨as, q, hs⟩ := @ih (p.edit f) h
      exact ⟨_, _, .edit hs⟩

/-- In every session from a fresh processor a fault is stored exactly if it has faulted, and the step
count is the number of steps that succeeded. Once it was halted or has faulted, a step fails with that
status, every request is served, and whatever the host goes on to ask, no step succeeds, no hook is
called, and nothing but the host's own edits and its wish to stop shows in the processor. -/
theorem terminal_of_session {table : InstructionSet} {hooks : Hooks σ} {host : σ} {machine : Machine}
    {ops : List (HostOperation σ)} (h : Session (start table hooks host machine) ops as p) :
    (p.fault?.isSome = true ↔ p.status = .faulted) ∧
    p.steps = as.countP (·.isOk) ∧
    (p.status ≠ .running →
      p.step = (.error (.notRunning p.status), p) ∧
      ∀ later,
        (∃ bs q, Session p later bs q) ∧
        (∀ bs q, Session p later bs q → (∃ stop, q = (p.edited later).withStop stop) ∧
          ∀ b ∈ bs, b = .error (.notRunning p.status)) ∧
        ∀ log,
          (∃ bs q, Session (p.logged log) (later.map HostOperation.logged) bs q) ∧
          ∀ bs q, Session (p.logged log) (later.map HostOperation.logged) bs q →
            q.host = ((p.edited later).host, log)) := by
  have hfresh : (start table hooks host machine).FaultStored := ⟨nofun, nofun⟩
  refine ⟨h.accounts.fault hfresh, ?steps, fun hr => ⟨step_of_not_running hr, fun later =>
    ⟨exists_session hr later, fun bs q hs => ?rests, fun log =>
      ⟨exists_session (p := p.logged log) hr _, fun bs q hs => ?calls⟩⟩⟩⟩
  case steps =>
    rw [h.accounts.steps]
    exact Nat.zero_add _
  case rests =>
    obtain ⟨hq, hbs⟩ := hs.rests hr
    rw [status_edited] at hbs
    exact ⟨hq, hbs⟩
  case calls =>
    obtain ⟨⟨stop, rfl⟩, _⟩ := hs.rests hr
    rw [edited_logged]
    rfl

theorem terminal_of_session_ecall :
    let hook : Hook Nat := fun n m => ⟨n + 1, m, true, some "refused"⟩
    let memory := (Memory.empty 8 (Nat.succ_pos 7)).push
      (.image (.ofArray #[0x93, 0x00, 0x50, 0x00, 0x73, 0, 0, 0]))
    let fresh := start .base ⟨hook, hook⟩ 0 (.ofMemory memory)
    let back : HostOperation Nat := .edit fun n m => (n, { m with pc := 0 })
    ∃ p, Session fresh [.request (.runFor 7)] [.ok (), .error (.hook 4 "refused")] p ∧
      p.fault? = some (.hook 4 "refused") ∧ p.stopRequested = true ∧ p.status = .faulted ∧
      p.steps = 1 ∧ p.step = (.error (.notRunning .faulted), p) ∧
      ∃ bs q, Session p [.request .halt, back, .request .run, .request .step] bs q ∧ q.pc = 0 ∧
        q.host = 1 ∧ q.status = .faulted ∧ q.steps = 1 ∧ q.fault? = some (.hook 4 "refused") := by
  intro hook memory fresh back
  have has : (fresh.runForTold 7).1 = [.ok (), .error (.hook 4 "refused")] := by decide +kernel
  have hfault : (fresh.runForTold 7).2.2.fault? = some (.hook 4 "refused") := by decide +kernel
  have hstop : (fresh.runForTold 7).2.2.stopRequested = true := by decide +kernel
  have hhost : (fresh.runForTold 7).2.2.host = 1 := by decide +kernel
  have hs : Session fresh [.request (.runFor 7)] [.ok (), .error (.hook 4 "refused")]
      (fresh.runForTold 7).2.2 := by
    have h := Session.request (Serves.runFor (p := fresh) 7) (.nil _)
    rw [has] at h
    exact h
  obtain ⟨hiff, hsteps, hterminal⟩ := terminal_of_session hs
  have hstatus : (fresh.runForTold 7).2.2.status = .faulted := hiff.1 (by rw [hfault]; rfl)
  obtain ⟨hstep, hlater⟩ := hterminal (by rw [hstatus]; exact nofun)
  obtain ⟨⟨bs, q, hq⟩, hrests, _⟩ :=
    hlater [.request .halt, back, .request .run, .request .step]
  obtain ⟨⟨stop, hqp⟩, _⟩ := hrests bs q hq
  rw [hstatus] at hstep
  refine ⟨_, hs, hfault, hstop, hstatus, hsteps, hstep, bs, q, hq, ?_⟩
  rw [hqp]
  exact ⟨rfl, hhost, hstatus, hsteps, hfault⟩

end Processor

end Hart
