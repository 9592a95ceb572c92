import Hart.Console.Command
import Hart.Proofs.Assembly.Program
import Hart.Proofs.Console.Services
import Hart.Proofs.Text.Utf8

namespace Hart.Console

def exitCode? (es : List Execution) : Option Nat := es.getLast?.bind Execution.exitCode?

/-- The report tells of a run that executed `es`: all that the calls wrote, and the exit code of the program, or
1 if it did not end by itself. Only the last instruction can have ended the program or have failed. -/
structure Report.Tells (r : Report) (es : List Execution) : Prop where
  stdout : r.stdout.toList = es.flatMap Execution.output
  answered : ∀ x ∈ es, x.Answered
  goesOn : ∀ x ∈ es.dropLast, x.exitCode? = none ∧ x.failure? = none
  exitCode : r.exitCode = (exitCode? es).getD 1
  failed : ∀ x ∈ es, x.failure? ≠ none → r.exitCode = 1

/-- The reports with all budgets, and with none, of a program that ends by itself with the last of the
instructions `es`. A budget of just these instructions is enough, and a smaller one shows the output of the
instructions that it allows. -/
structure EndsAfter (reports : Option Nat → Option Report) (es : List Execution) (r : Report) : Prop where
  unbounded : reports none = some r
  tells : r.Tells es
  ends : (exitCode? es).isSome
  enough : ∀ n, es.length ≤ n → ∃ r', reports (some n) = some r' ∧ r'.stdout = r.stdout ∧
    r'.exitCode = r.exitCode
  less : ∀ n < es.length, ∃ r', reports (some n) = some r' ∧
    r'.stdout.toList = (es.take n).flatMap Execution.output ∧ r'.exitCode = 1

structure Ready (p : Processor Host) : Prop where
  running : p.status = .running
  table : p.table = .base
  hooks : p.hooks = hooks
  exitCode : p.host.exitCode = 0
  stop : p.stopRequested = false

structure Served (host : Host) (x : Execution) (r : Reply Host Exception) : Prop where
  output : r.host.output.toList = host.output.toList ++ x.output
  answered : x.Answered
  stop : r.stop = x.exitCode?.isSome
  exitCode : ∀ code, x.exitCode? = some code → r.host.exitCode.toNat % 256 = code
  goesOn : x.exitCode? = none → r.host.exitCode = 0
  failed : x.failure? ≠ none → x.exitCode? = none

structure Told (host : Host) (es : List Execution) (o : Outcome Host RunOutcome) : Prop where
  output : o.2.host.output.toList = host.output.toList ++ es.flatMap Execution.output
  answered : ∀ x ∈ es, x.Answered
  goesOn : ∀ x ∈ es.dropLast, x.exitCode? = none
  failed : ∀ x ∈ es, x.failure? ≠ none → x.exitCode? = none
  halted : o.1 = .ok .halted → exitCode? es = some (o.2.host.exitCode.toNat % 256)
  notHalted : o.1 ≠ .ok .halted → exitCode? es = none

variable {p q : Processor Host} {host : Host} {i : Instruction} {n : Nat} {es : List Execution}
  {x : Execution} {o : Outcome Host RunOutcome} {r : Reply Host Exception} {e : Exception}

theorem Served.of_serves {s : Service} (hs : x.service? = some s) (h : Serves s host x.before r)
    (hx : x.failure? = r.failure?) (ha : x.after = r.machine) (h0 : host.exitCode = 0) :
    Served host x r where
  output := by rw [h.output, Execution.output, hs]; rfl
  answered t ht := by
    cases hs.symm.trans ht
    rw [ha, hx, h.machine, h.failure]
    exact ⟨rfl, rfl⟩
  stop := by rw [h.stop, Execution.exitCode?, hs]; rfl
  exitCode code hcode := by
    rw [Execution.exitCode?, hs] at hcode
    exact h.exitCode h0 code hcode
  goesOn hnone := by
    rw [Execution.exitCode?, hs] at hnone
    rw [h.goesOn hnone, h0]
  failed hne := by
    rw [hx, h.failure] at hne
    rw [Execution.exitCode?, hs]
    cases s with
    | unknown => rfl
    | printInteger | printCharacter | exit | exitWith | stop => exact absurd rfl hne

theorem Served.of_quiet (hs : x.service? = none) (hhost : r.host = host) (hstop : r.stop = false)
    (h0 : host.exitCode = 0) : Served host x r where
  output := by rw [hhost, Execution.output, hs]; exact (List.append_nil _).symm
  answered s h := by cases hs.symm.trans h
  stop := by rw [hstop, Execution.exitCode?, hs]; rfl
  exitCode code hcode := by
    rw [Execution.exitCode?, hs] at hcode
    cases hcode
  goesOn _ := by rw [hhost, h0]
  failed _ := by rw [Execution.exitCode?, hs]; rfl

theorem Ready.checkStop (h : Ready p) : p.checkStop = p := by
  rw [Processor.checkStop, h.stop]
  rfl

theorem Ready.served (h : Ready p) (hf : p.machine.fetch p.table = .ok i) :
    Served p.host (p.execution i) (p.reply i) := by
  have hd : i.descriptor ∈ baseDescriptors := by
    rw [h.table] at hf
    exact Machine.descriptor_mem_of_fetch hf
  have hhook := hook?_base p.hooks i.descriptor hd
  split_ifs at hhook with hcall hbreak
  · have hs : (p.execution i).service? =
        some (.ofCall (p.machine.read 17) (p.machine.read 10)) := if_pos hcall
    have hr : p.reply i = systemCall.call p.host p.machine := by
      rw [Processor.reply, Action.execute_of_hook?_some hhook, h.hooks]
      rfl
    exact .of_serves hs (hr ▸ serves_systemCall p.host p.machine) rfl rfl h.exitCode
  · have hs : (p.execution i).service? = some .stop := (if_neg hcall).trans (if_pos hbreak)
    have hr : p.reply i = systemBreak.call p.host p.machine := by
      rw [Processor.reply, Action.execute_of_hook?_some hhook, h.hooks]
      rfl
    exact .of_serves hs (hr ▸ serves_systemBreak p.host p.machine) rfl rfl h.exitCode
  · have hs : (p.execution i).service? = none := (if_neg hcall).trans (if_neg hbreak)
    have hquiet : (p.reply i).host = p.host ∧ (p.reply i).stop = false :=
      Action.execute_of_hook?_none hhook i.operands
    exact .of_quiet hs hquiet.1 hquiet.2 h.exitCode

theorem Ready.next (h : Ready p) (hs : Served p.host (p.execution i) (p.reply i))
    (hnone : (p.execution i).exitCode? = none) : Ready (p.next i) where
  running := h.running
  table := h.table
  hooks := h.hooks
  exitCode := hs.goesOn hnone
  stop := by
    rw [Processor.next]
    dsimp only
    rw [h.stop, hs.stop, hnone]
    rfl

theorem Ready.halted_next (h : Ready p) (hs : Served p.host (p.execution i) (p.reply i)) {code : Nat}
    (hcode : (p.execution i).exitCode? = some code) :
    (p.next i).checkStop = { p.next i with status := .halted } := by
  have hstop : (p.next i).stopRequested = true := by
    rw [Processor.next]
    dsimp only
    rw [hs.stop, hcode]
    exact Bool.or_true _
  have hr : (p.next i).status = .running := h.running
  rw [Processor.checkStop, if_pos hstop, Processor.halt, if_pos hr]

theorem exitCode?_cons (h : x.exitCode? = none) : exitCode? (x :: es) = exitCode? es := by
  cases es with
  | nil => exact h
  | cons y ys => rw [exitCode?, List.getLast?_cons_cons, exitCode?]

theorem Told.cons (h : Told r.host es o) (hs : Served host x r) (hnone : x.exitCode? = none) :
    Told host (x :: es) o where
  output := by rw [h.output, hs.output, List.flatMap_cons, List.append_assoc]
  answered := List.forall_mem_cons.2 ⟨hs.answered, h.answered⟩
  goesOn := Processor.forall_mem_dropLast_cons hnone h.goesOn
  failed := List.forall_mem_cons.2 ⟨hs.failed, h.failed⟩
  halted hh := (exitCode?_cons hnone).trans (h.halted hh)
  notHalted hh := (exitCode?_cons hnone).trans (h.notHalted hh)

theorem Told.nil (q : Processor Host) {a : Except Exception RunOutcome} (ha : a ≠ .ok .halted) :
    Told q.host [] (a, q) where
  output := (List.append_nil _).symm
  answered _ hx := absurd hx List.not_mem_nil
  goesOn _ hx := absurd hx List.not_mem_nil
  failed _ hx := absurd hx List.not_mem_nil
  halted hh := absurd hh ha
  notHalted _ := rfl

theorem Told.exit (hs : Served host x r) {code : Nat} (hcode : x.exitCode? = some code)
    (hhost : q.host = r.host) : Told host [x] (.ok .halted, q) where
  output := by rw [hhost, hs.output]; exact congrArg _ (List.append_nil _).symm
  answered := List.forall_mem_singleton.2 hs.answered
  goesOn _ hx := absurd hx List.not_mem_nil
  failed := List.forall_mem_singleton.2 hs.failed
  halted _ := by rw [hhost, hs.exitCode code hcode]; exact hcode
  notHalted hh := absurd rfl hh

theorem Ready.told (h : Ready p) (hr : p.Runs n es o) : Told p.host es o := by
  induction hr with
  | halted p hh =>
    rw [h.checkStop, h.running] at hh
    cases hh
  | exhausted p _ =>
    rw [h.checkStop]
    exact .nil p fun ha => by cases ha
  | lost p _ hl hs =>
    rw [h.checkStop] at hl hs
    cases hf : p.machine.fetch p.table with
    | error cause =>
      cases hs.symm.trans (Processor.step_of_fetch_error h.running hf)
      exact .nil (p.raise _) fun ha => by cases ha
    | ok i => exact absurd hf (hl i h.running)
  | failed p i _ hf hx hs =>
    rw [h.checkStop] at hf hx hs ⊢
    have hserved := h.served hf
    have hfailed : (p.execution i).failure? ≠ none := fun hnone => by cases hx.symm.trans hnone
    cases hs.symm.trans (Processor.step_of_failed h.running hf hx)
    refine .cons (.nil (p.faulted i _) fun ha => ?_) hserved (hserved.failed hfailed)
    cases ha
  | retired p i _ hf _ hrest ih =>
    rw [h.checkStop] at hf hrest ih ⊢
    have hserved := h.served hf
    cases hcode : (p.execution i).exitCode? with
    | none => exact (ih (h.next hserved hcode)).cons hserved hcode
    | some code =>
      have hhalted := h.halted_next hserved hcode
      obtain ⟨rfl, rfl⟩ := hrest.eq_of_halted (by rw [hhalted])
      exact .exit hserved hcode (by rw [hhalted]; rfl)

theorem Told.exitCode?_of_failed (h : Told host es o) (hfail : ∀ y ∈ es.dropLast, y.failure? = none)
    (hx : x ∈ es) (hne : x.failure? ≠ none) : exitCode? es = none := by
  have hlast : es.getLast? = some x := by
    rw [← List.dropLast_append_getLast (List.ne_nil_of_mem hx), List.mem_append] at hx
    rcases hx with hx | hx
    · exact absurd (hfail x hx) hne
    · rw [List.mem_singleton.1 hx, List.getLast?_eq_some_getLast]
  rw [exitCode?, hlast]
  exact h.failed x hx hne

theorem Told.tells {r : Report} (h : Told .initial es o)
    (hfail : ∀ x ∈ es.dropLast, x.failure? = none) (hout : r.stdout = o.2.host.output)
    (hcode : r.exitCode = (exitCode? es).getD 1) : r.Tells es where
  stdout := by rw [hout, h.output]; rfl
  answered := h.answered
  goesOn x hx := ⟨h.goesOn x hx, hfail x hx⟩
  exitCode := hcode
  failed x hx hne := by rw [hcode, h.exitCode?_of_failed hfail hx hne]; rfl

theorem Told.exists_report {a : Except Exception RunOutcome} {options : Options} (path : String)
    (told : List String) (h : Told .initial es (a, q)) (hfail : ∀ x ∈ es.dropLast, x.failure? = none)
    (hx : execute options p = some (a, q)) :
    ∃ r, report options path told p = some r ∧ r.Tells es := by
  simp only [report, hx, Option.map_some]
  match a with
  | .ok .halted =>
    refine ⟨_, rfl, h.tells hfail rfl ?_⟩
    rw [h.halted rfl]
    rfl
  | .ok .budgetExhausted =>
    refine ⟨_, rfl, h.tells hfail rfl ?_⟩
    rw [h.notHalted fun ha => by cases ha]
    rfl
  | .error e =>
    refine ⟨_, rfl, h.tells hfail rfl ?_⟩
    rw [h.notHalted fun ha => by cases ha]
    rfl

theorem ready_processor (image : Image) : Ready (processor image) := ⟨rfl, rfl, rfl, rfl, rfl⟩

theorem told_processor (image : Image) (n : Nat) :
    Told .initial ((processor image).executions n) ((processor image).runFor n) :=
  (ready_processor image).told ((processor image).runs n)

variable {options : Options} {source path : String} {program : Assembly.Program} {image : Image}

theorem execute_of_none (hn : options.maxSteps? = none) (p : Processor Host) :
    execute options p = p.run.map fun (result, q) => (result.map fun _ => .halted, q) := by
  rw [execute, hn]

theorem execute_eq_some_iff (hn : options.maxSteps? = none) :
    execute options p = some o ↔ o.1 ≠ .ok .budgetExhausted ∧ ∃ n, p.runFor n = o := by
  rw [execute_of_none hn, Option.map_eq_some_iff]
  constructor
  · rintro ⟨⟨a, t⟩, hrun, rfl⟩
    obtain ⟨n, hn⟩ := Processor.run_eq_some_iff.1 hrun
    cases a with
    | ok => exact ⟨fun h => (by cases h), n, Processor.ending?_eq_ok_iff.1 hn⟩
    | error e => exact ⟨fun h => (by cases h), n, Processor.ending?_eq_error_iff.1 hn⟩
  · obtain ⟨a, t⟩ := o
    rintro ⟨ha, n, hn⟩
    match a with
    | .ok .halted =>
      exact ⟨(.ok (), t), Processor.run_eq_some_iff.2 ⟨n, Processor.ending?_eq_ok_iff.2 hn⟩, rfl⟩
    | .ok .budgetExhausted => exact absurd rfl ha
    | .error e =>
      exact ⟨(.error e, t), Processor.run_eq_some_iff.2 ⟨n, Processor.ending?_eq_error_iff.2 hn⟩, rfl⟩

theorem exists_run_eq_report (helf : options.elf = false)
    (hsize : 0 < options.pageSize ∧ options.pageSize % 4 = 0)
    (hp : Assembly.assemble .base source = .ok program)
    (hload : program.load (.empty options.pageSize hsize.1) options.ramPages = .ok image)
    (path : String) : ∃ told, ∀ budget? : Option Nat,
      run { options with maxSteps? := budget? } path (.ok (Text.Utf8.encode source)) =
        report { options with maxSteps? := budget? } path told (processor image) := by
  have hfailure := Assembly.assembleUntilFailure_of_ok hp
  have himage : (load options (.empty options.pageSize hsize.1) (Text.Utf8.encode source)).image =
      .ok image := by
    simp only [load, helf, Text.Utf8.decode_encode, loadSource, hfailure, hload]
    rfl
  refine ⟨options.filter.lines
    (load options (.empty options.pageSize hsize.1) (Text.Utf8.encode source)).log, fun budget? => ?_⟩
  have himage' : (load { options with maxSteps? := budget? } (.empty options.pageSize hsize.1)
      (Text.Utf8.encode source)).image = .ok image := himage
  rw [run, dif_pos hsize]
  simp only [himage']
  rfl

theorem Report.Tells.unique {r r' : Report} (h : r.Tells es) (h' : r'.Tells es) :
    r'.stdout = r.stdout ∧ r'.exitCode = r.exitCode :=
  ⟨Array.toList_inj.1 (h'.stdout.trans h.stdout.symm), h'.exitCode.trans h.exitCode.symm⟩

theorem exists_report_of_execute (path : String) (told : List String)
    (hrun : (processor image).runFor n = o) (hx : execute options (processor image) = some o) :
    ∃ r, report options path told (processor image) = some r ∧
      r.Tells ((processor image).executions n) := by
  have htold := told_processor image n
  rw [hrun] at htold
  exact htold.exists_report path told ((processor image).runs n).failure?_of_mem_dropLast hx

theorem exists_of_report_none {told : List String} {r : Report} (hn : options.maxSteps? = none)
    (h : report options path told (processor image) = some r) : ∃ n,
      r.Tells ((processor image).executions n) ∧
      ∀ m, (processor image).executions (n + m) = (processor image).executions n := by
  obtain ⟨o, hx, _⟩ := Option.map_eq_some_iff.1 h
  obtain ⟨ho, n, hrun⟩ := (execute_eq_some_iff hn).1 hx
  obtain ⟨r', hr', htells⟩ := exists_report_of_execute path told hrun hx
  cases h.symm.trans hr'
  exact ⟨n, htells, Processor.executions_of_ended hrun ho⟩

theorem endsAfter {reports : Option Nat → Option Report} {s : Nat} {t : Processor Host} {r : Report}
    (hs : (processor image).HaltsAfter s t)
    (hbounded : ∀ n, ∃ r, reports (some n) = some r ∧ r.Tells ((processor image).executions n))
    (hr : reports none = some r) (htells : r.Tells ((processor image).executions s)) :
    EndsAfter reports ((processor image).executions s) r := by
  have hlen := hs.length_executions
  refine ⟨hr, htells, ?ends, fun n hn => ?enough, fun n hn => ?less⟩
  case ends =>
    rw [(told_processor image s).halted (by rw [hs.runFor])]
    rfl
  case enough =>
    rw [hlen] at hn
    obtain ⟨m, rfl⟩ := Nat.exists_eq_add_of_le hn
    obtain ⟨r', hr', htells'⟩ := hbounded (s + m)
    rw [Processor.executions_of_ended hs.runFor fun ha => by cases ha] at htells'
    exact ⟨r', hr', htells.unique htells'⟩
  case less =>
    rw [hlen] at hn
    obtain ⟨m, rfl⟩ := Nat.exists_eq_add_of_le hn.le
    obtain ⟨r', hr', htells'⟩ := hbounded n
    obtain ⟨q, hq⟩ := hs.less n hn
    have hnone : exitCode? ((processor image).executions n) = none :=
      (told_processor image n).notHalted (by rw [hq]; exact fun ha => by cases ha)
    refine ⟨r', hr', ?_, by rw [htells'.exitCode, hnone]; rfl⟩
    rw [Processor.take_executions, htells'.stdout]

/-- Whatever a program that is assembled and loaded does, its report tells the instructions that it executes. If
it ends by itself, a budget changes the report only if it is smaller than the number of these. -/
theorem run_assembled (helf : options.elf = false)
    (hsize : 0 < options.pageSize ∧ options.pageSize % 4 = 0)
    (hp : Assembly.assemble .base source = .ok program)
    (hload : program.load (.empty options.pageSize hsize.1) options.ramPages = .ok image)
    (path : String) :
    let reports (budget? : Option Nat) :=
      run { options with maxSteps? := budget? } path (.ok (Text.Utf8.encode source))
    let p := processor image
    (∀ n, ∃ r, reports (some n) = some r ∧ r.Tells (p.executions n)) ∧
    (∀ r, reports none = some r →
      ∃ n, r.Tells (p.executions n) ∧ ∀ m, p.executions (n + m) = p.executions n) ∧
    (reports none).isSome = p.run.isSome ∧
    ∀ t, p.run = some (.ok (), t) → (p.executions t.steps).length = t.steps ∧
      ∃ r, EndsAfter reports (p.executions t.steps) r := by
  intro reports p
  obtain ⟨told, hreports⟩ := exists_run_eq_report helf hsize hp hload path
  have hbounded (n : Nat) : ∃ r, reports (some n) = some r ∧ r.Tells (p.executions n) := by
    rw [show reports (some n) = _ from hreports (some n)]
    exact exists_report_of_execute path told rfl rfl
  have hnone : reports none = _ := hreports none
  refine ⟨hbounded, fun r hr => exists_of_report_none rfl (hnone.symm.trans hr), ?_, fun t ht => ?_⟩
  · rw [hnone, report, Option.isSome_map, execute_of_none rfl, Option.isSome_map]
  · obtain ⟨n, hn⟩ := Processor.run_eq_some_iff.1 ht
    obtain ⟨s, hs⟩ := Processor.exists_haltsAfter (Processor.ending?_eq_ok_iff.1 hn)
    have hsteps : t.steps = s := hs.steps.trans (Nat.zero_add s)
    have hx : execute { options with maxSteps? := none } (processor image) = some (.ok .halted, t) :=
      (execute_eq_some_iff rfl).2 ⟨fun ha => (by cases ha), s, hs.runFor⟩
    obtain ⟨r, hr, htells⟩ := exists_report_of_execute path told hs.runFor hx
    rw [hsteps]
    exact ⟨hs.length_executions, r, endsAfter hs hbounded (hnone.trans hr) htells⟩

theorem run_assembled_exit :
    let source := "ADDI a7 x0 1\nADDI a0 x0 -5\nECALL\nADDI a7 x0 93\nADDI a0 a0 298\nECALL"
    let options : Options := { pageSize := 16 }
    ∃ program image r, Assembly.assemble .base source = .ok program ∧
      program.load (.empty 16 (by decide)) 1 = .ok image ∧
      EndsAfter (fun budget? => run { options with maxSteps? := budget? } "exit.s"
        (.ok (Text.Utf8.encode source))) ((processor image).executions 6) r ∧
      r.stdout = #[0x2d, 0x35] ∧ r.exitCode = 44 := by
  intro source options
  let program : Assembly.Program := ⟨source,
    [⟨1, ⟨0, 12⟩, 0x100893⟩, ⟨2, ⟨13, 26⟩, 0xffb00513⟩, ⟨3, ⟨27, 32⟩, 0x73⟩,
      ⟨4, ⟨33, 46⟩, 0x5d00893⟩, ⟨5, ⟨47, 61⟩, 0x12a50513⟩, ⟨6, ⟨62, 67⟩, 0x73⟩]⟩
  have hp : Assembly.assemble .base source = .ok program := by decide +kernel
  have hrun : (program.load (.empty 16 (by decide)) 1).map (fun image =>
      (((processor image).runFor 6).1, ((processor image).runFor 6).2.steps)) =
        .ok (.ok .halted, 6) := by decide +kernel
  have hsix : (run { options with maxSteps? := some 6 } "exit.s" (.ok (Text.Utf8.encode source))).map
      (fun r => (r.stdout, r.exitCode)) = some (#[0x2d, 0x35], 44) := by decide +kernel
  cases hload : program.load (.empty 16 (by decide)) 1 with
  | error e =>
    rw [hload] at hrun
    cases hrun
  | ok image =>
    rw [hload] at hrun
    obtain ⟨hhalted, hsteps⟩ := Prod.mk.inj (Except.ok.inj hrun)
    have helf : options.elf = false := rfl
    obtain ⟨_, _, _, hends⟩ := run_assembled helf ⟨by decide, by decide⟩ hp hload "exit.s"
    have ht : (processor image).run = some (.ok (), ((processor image).runFor 6).2) :=
      Processor.run_eq_some_iff.2 ⟨6, Processor.ending?_eq_ok_iff.2 (Prod.ext hhalted rfl)⟩
    obtain ⟨hlen, r, hr⟩ := hends _ ht
    rw [hsteps] at hlen hr
    obtain ⟨r', hr', hout, hcode⟩ := hr.enough 6 hlen.le
    rw [hr'] at hsix
    obtain ⟨hstdout, hexit⟩ := Prod.mk.inj (Option.some.inj hsix)
    exact ⟨program, image, r, hp, hload, hr, hout.symm.trans hstdout, hcode.symm.trans hexit⟩

end Hart.Console
