import MediaCatalog.Proofs.Workflow.Answer
import MediaCatalog.Proofs.Workflow.Independence

/-!
# Deadlines — a step with a time limit is over in time, whatever its handler does

A time limit holds for each attempt on its own, and the delay lies between attempts
(`Step.KeepsTime`). So a step takes no longer than its attempts and the pauses between them may
(`Step.longest`), and a run whose steps all have limits no longer than its steps together
(`Definition.occupied`).
-/

namespace MediaCatalog.Workflow

/-! ## 1. One step -/

namespace Step

/-- The longest that so many attempts may take, with the pauses between them. -/
def longest (s : Step) (delay attempts : Nat) : Nat :=
  attempts * s.timeout.getD 0 + (attempts - 1) * delay

/-- Attempts one after the other from a time on, none of them longer than the limit. -/
structure KeepsTime (s : Step) (limit : Nat) (handler : Handler) (delay start : Nat)
    (trials : List Trial) : Prop where
  first : trials.head?.map Trial.start = some start
  pauses : trials.IsChain fun t next => next.start = t.finish + delay
  numbers : trials.map Trial.number = List.range' 1 trials.length
  ends : ∀ t ∈ trials, t.start ≤ t.finish ∧ t.finish ≤ t.start + limit
  /-- What ends within the limit, or at it, answers for itself. -/
  inTime : ∀ t ∈ trials, ∀ length, (handler t.start t.number).length = some length →
    length ≤ limit → t.finish = t.start + length ∧ t.answer = (handler t.start t.number).answer
  /-- What would take longer or for ever is cut off. -/
  late : ∀ t ∈ trials, (∀ length, (handler t.start t.number).length = some length →
    limit < length) → t.finish = t.start + limit ∧ t.answer = .error (.stepTimeout s.name limit)

variable {s : Step} {limit : Nat} {handler : Handler}
  {delay clock left number start finish : Nat} {before : List Trial} {last : Trial}

theorem ending?_of_le (htimeout : s.timeout = some limit) {a : Attempt} {length : Nat}
    (hlength : a.length = some length) (hle : length ≤ limit) :
    s.ending? start a = some (start + length, a.answer) := by
  rw [ending?, htimeout, hlength]
  exact if_pos hle

theorem ending?_of_late (htimeout : s.timeout = some limit) {a : Attempt}
    (hlate : ∀ length, a.length = some length → limit < length) :
    s.ending? start a = some (start + limit, .error (.stepTimeout s.name limit)) := by
  rw [ending?, htimeout]
  cases hlength : a.length with
  | none => rfl
  | some length => exact if_neg (Nat.not_le.mpr (hlate length hlength))

/-- An attempt ends by its limit. -/
theorem exists_ending? (htimeout : s.timeout = some limit) (start : Nat) (a : Attempt) :
    ∃ finish answer, s.ending? start a = some (finish, answer) ∧ finish ≤ start + limit := by
  by_cases hlate : ∀ length, a.length = some length → limit < length
  · exact ⟨_, _, ending?_of_late htimeout hlate, le_rfl⟩
  · simp only [not_forall, Nat.not_lt] at hlate
    obtain ⟨length, hlength, hle⟩ := hlate
    exact ⟨_, _, ending?_of_le htimeout hlength hle, Nat.add_le_add_left hle start⟩

theorem le_of_timeout (htimeout : s.timeout = some limit) {a : Attempt}
    {answer : Except Failure Json} (hending : s.ending? start a = some (finish, answer)) :
    finish ≤ start + limit := by
  obtain ⟨_, _, hending', hle⟩ := exists_ending? htimeout start a
  rw [hending] at hending'
  cases hending'
  exact hle

namespace Trials

theorem finish_le (h : s.Trials handler delay left number start before last)
    (htimeout : s.timeout = some limit) :
    last.finish ≤ start + ((before.length + 1) * limit + before.length * delay) := by
  induction h with
  | succeeded ending | failed ending =>
    have hle := le_of_timeout htimeout ending
    simpa using hle
  | retried ending _ ih =>
    have hle := le_of_timeout htimeout ending
    rw [List.length_cons, Nat.add_mul _ 1 limit, Nat.add_mul _ 1 delay]
    omega

theorem keepsTime (h : s.Trials handler delay left 1 start before last)
    (htimeout : s.timeout = some limit) :
    s.KeepsTime limit handler delay start (before ++ [last]) where
  first := h.pauses.1
  pauses := h.pauses.2
  numbers := by
    rw [List.length_append, List.length_singleton]
    exact h.numbers
  ends t ht := ⟨le_of_ending? (h.ending_of_mem t ht), le_of_timeout htimeout (h.ending_of_mem t ht)⟩
  inTime t ht length hlength hle := by
    have hending := h.ending_of_mem t ht
    rw [ending?_of_le htimeout hlength hle, Option.some.injEq, Prod.mk.injEq] at hending
    exact ⟨hending.1.symm, hending.2.symm⟩
  late t ht hlate := by
    have hending := h.ending_of_mem t ht
    rw [ending?_of_late htimeout hlate, Option.some.injEq, Prod.mk.injEq] at hending
    exact ⟨hending.1.symm, hending.2.symm⟩

/-- The step is over before its attempts and the pauses between them can have taken longer. -/
theorem finish_le_longest (h : s.Trials handler delay left 1 start before last)
    (htimeout : s.timeout = some limit) (began : Nat) :
    last.finish ≤ start + s.longest delay (last.outcome s.name began).attempts := by
  rw [Trial.attempts_outcome, h.number_last, longest, htimeout, Nat.add_comm 1,
    Nat.add_sub_cancel]
  exact h.finish_le htimeout

end Trials

theorem exists_trials_of_timeout (htimeout : s.timeout = some limit) (handler : Handler)
    (delay start : Nat) :
    ∃ before last, s.Trials handler delay s.maxAttempts 1 start before last := by
  obtain ⟨left, hleft⟩ := Nat.exists_eq_add_one.mpr s.maxAttempts_pos
  rw [hleft]
  refine exists_trials fun ahead time _ _ => ?_
  obtain ⟨finish, answer, hending, -⟩ := exists_ending? htimeout time (handler time (1 + ahead))
  rw [hending]
  rfl

/-- A step with a time limit is over in time, with the calls of its attempts. -/
theorem exists_run_of_timeout (htimeout : s.timeout = some limit) (handler : Handler)
    (delay start : Nat) : ∃ trials o finish, s.KeepsTime limit handler delay start trials ∧
      o.attempts = trials.length ∧ finish ≤ start + s.longest delay o.attempts ∧
      (∀ clock, (s.run handler delay clock start).calls =
        (trials.filter (·.start ≤ clock)).map (Trial.call s.name)) ∧
      ∀ clock, finish ≤ clock → s.run handler delay clock start =
        ⟨trials.map (Trial.call s.name), .finished o finish⟩ := by
  obtain ⟨before, last, h⟩ := exists_trials_of_timeout htimeout handler delay start
  refine ⟨before ++ [last], _, _, h.keepsTime htimeout, ?_, h.finish_le_longest htimeout start,
    fun clock => h.calls_attempt, fun clock hclock => h.run_eq hclock⟩
  rw [Trial.attempts_outcome, h.number_last, List.length_append, List.length_singleton,
    Nat.add_comm]

theorem keepsTime_of_run (htimeout : s.timeout = some limit) {calls : List Call} {o : Outcome}
    (h : s.run handler delay clock start = ⟨calls, .finished o finish⟩) :
    (∃ trials, s.KeepsTime limit handler delay start trials ∧ o.attempts = trials.length ∧
      calls = trials.map (Trial.call s.name)) ∧ finish ≤ start + s.longest delay o.attempts := by
  obtain ⟨before, last, htrials, rfl, rfl, rfl⟩ := trials_of_run h
  refine ⟨⟨before ++ [last], htrials.keepsTime htimeout, ?_, rfl⟩,
    htrials.finish_le_longest htimeout start⟩
  rw [Trial.attempts_outcome, htrials.number_last, List.length_append, List.length_singleton,
    Nat.add_comm]

end Step

/-! ## 2. The steps of a run -/

theorem Turn.Taken.finish_le {delay clock : Nat} {done : List Outcome} {t : Turn}
    (h : t.Taken delay clock done) (htimeout : t.step.timeout.isSome) :
    t.finish ≤ t.start + t.step.longest delay t.outcome.attempts := by
  cases h with
  | skipped => exact Nat.le_add_right _ _
  | started _ ran =>
    obtain ⟨limit, hlimit⟩ := Option.isSome_iff_exists.mp htimeout
    exact (Step.keepsTime_of_run hlimit ran).2

theorem Turns.finish_le_sum {delay clock start finish : Nat} {done : List Outcome}
    {turns : List Turn} (h : Turns delay clock done start turns finish)
    (htimeouts : ∀ t ∈ turns, t.step.timeout.isSome) :
    finish ≤ start + (turns.map fun t => t.step.longest delay t.outcome.attempts).sum := by
  induction h with
  | nil => exact Nat.le_add_right _ _
  | cons taken _ ih =>
    obtain ⟨ht, hrest⟩ := List.forall_mem_cons.mp htimeouts
    have hfirst := taken.finish_le ht
    have hlater := ih hrest
    rw [List.map_cons, List.sum_cons]
    omega

/-- Jobs whose steps all have time limits are done some time. -/
theorem jobsEnd_of_timeout {delay : Nat} {jobs : List (Step × Handler)}
    (htimeouts : ∀ job ∈ jobs, job.1.timeout.isSome) (done : List Outcome) (start : Nat) :
    JobsEnd delay jobs done start := by
  induction jobs generalizing done start with
  | nil => exact .nil
  | cons job jobs ih =>
    obtain ⟨s, handler⟩ := job
    obtain ⟨hs, hjobs⟩ := List.forall_mem_cons.mp htimeouts
    cases hblocked : s.blockedBy? done with
    | some dependency => exact .of_blocked hblocked (ih hjobs _ start)
    | none =>
      obtain ⟨limit, hlimit⟩ := Option.isSome_iff_exists.mp hs
      obtain ⟨before, last, htrials⟩ :=
        Step.exists_trials_of_timeout hlimit handler delay start
      exact .of_trials hblocked htrials (ih hjobs _ last.finish)

/-! ## 3. Definitions and runners -/

/-- The longest that the steps with these outcomes may take together. What was passed over takes no
time. -/
def Definition.occupied (d : Definition) (delay : Nat) (outcomes : List Outcome) : Nat :=
  (outcomes.map fun o => (d.step? o.step).elim 0 (·.longest delay o.attempts)).sum

namespace Definition
variable {d : Definition} {handlers : String → Option Handler} {delay clock start finish : Nat}
  {turns : List Turn}

theorem Schedule.finish_le (h : d.Schedule delay clock start turns finish)
    (htimeouts : ∀ s ∈ d.steps, s.timeout.isSome) :
    finish ≤ start + d.occupied delay (turns.map Turn.outcome) := by
  have hnodup := ((isValid_iff d).mp (executionOrder_eq_ok h.order).1).2.1
  have hsum : (turns.map Turn.outcome).map
      (fun o => (d.step? o.step).elim 0 (·.longest delay o.attempts)) =
        turns.map fun t => t.step.longest delay t.outcome.attempts := by
    rw [List.map_map]
    refine List.map_congr_left fun t ht => ?_
    have hstep : d.step? t.outcome.step = some t.step :=
      (step?_eq_some_iff hnodup).mpr ⟨h.step_mem ht, (h.outcome_step ht).symm⟩
    rw [Function.comp_apply, hstep]
    rfl
  rw [occupied, hsum]
  exact h.turns.finish_le_sum fun t ht => htimeouts _ (h.step_mem ht)

/-- The first call of a run is made at once. -/
theorem Schedule.head_calls (h : d.Schedule delay clock start turns finish) :
    (turns.flatMap Turn.calls).head?.map Call.time = some start := by
  have hne : turns ≠ [] := by
    rintro rfl
    exact ((isValid_iff d).mp (executionOrder_eq_ok h.order).1).1 h.perm.symm.eq_nil
  obtain ⟨t, rest, rfl⟩ := List.exists_cons_of_ne_nil hne
  have hsplit : t :: rest = [] ++ t :: rest := rfl
  have htaken := (h.taken hsplit).2
  have hstatus : t.outcome.status ≠ .blocked := fun hblocked => by
    obtain ⟨front, a, back, hdeps, -⟩ := h.skipped_of_status_eq List.mem_cons_self hblocked
    have ha : a ∈ t.step.dependencies := hdeps ▸ List.mem_append_right front List.mem_cons_self
    obtain ⟨u, hu, -⟩ := h.exists_before hsplit ha
    cases hu
  obtain ⟨later, hcalls⟩ := (htaken.free_of_status_ne hstatus).2.exists_calls
  have hstart : t.start = start := by
    cases h.turns
    rfl
  rw [List.flatMap_cons, hcalls, hstart]
  rfl

end Definition

/-- What a report and the calls say about time. -/
structure Report.IsTimely (d : Definition) (handlers : String → Option Handler)
    (delay start : Nat) (calls : List Call) (report : Report) : Prop where
  first : calls.head?.map Call.time = some start
  executed : ∀ o ∈ report.steps, o.status ≠ .blocked → ∀ s ∈ d.steps, s.name = o.step →
    ∀ limit, s.timeout = some limit → ∃ handler began finish trials,
      handlers s.name = some handler ∧ o.startedAt = some began ∧ o.finishedAt = some finish ∧
      finish ≤ began + s.longest delay o.attempts ∧
      s.KeepsTime limit handler delay began trials ∧ o.attempts = trials.length ∧
      calls.filter (·.step == s.name) = trials.map (Trial.call s.name)
  all : (∀ s ∈ d.steps, s.timeout.isSome) → ∀ o ∈ report.steps, ∀ time,
    o.finishedAt = some time → time ≤ start + d.occupied delay report.steps

theorem Definition.Ran.isTimely {d : Definition} {handlers : String → Option Handler}
    {delay start : Nat} {calls : List Call} {report : Report}
    (h : d.Ran handlers delay start calls report) :
    report.IsTimely d handlers delay start calls := by
  obtain ⟨clock, turns, finish, hschedule, hhandlers, rfl, rfl⟩ := h.exists_schedule
  refine ⟨hschedule.head_calls, fun o ho hstatus s hs hname limit hlimit => ?_,
    fun htimeouts o ho time htime => ?_⟩
  · obtain ⟨t, ht, rfl⟩ := List.mem_map.mp ho
    obtain ⟨before, after, hsplit⟩ := List.append_of_mem ht
    have htaken := (hschedule.taken hsplit).2
    obtain rfl := hschedule.step_eq ht hs (htaken.outcome_step.symm.trans hname.symm)
    have hattempted := (htaken.free_of_status_ne hstatus).2
    obtain ⟨⟨trials, hkeeps, hattempts, hcalls⟩, hle⟩ :=
      Step.keepsTime_of_run hlimit (htaken.run_of_status_ne hstatus)
    exact ⟨t.handler, t.start, t.finish, trials, hhandlers t ht, hattempted.startedAt,
      hattempted.finishedAt, hle, hkeeps, hattempts, (hschedule.filter_calls hsplit).trans hcalls⟩
  · obtain ⟨t, ht, rfl⟩ := List.mem_map.mp ho
    obtain ⟨before, after, hsplit⟩ := List.append_of_mem ht
    rw [(hschedule.taken hsplit).2.finishedAt htime]
    exact (hschedule.turns.finish_le t ht).trans (hschedule.finish_le htimeouts)

/-- A run of a definition whose steps all have limits is over in time. -/
theorem Definition.exists_runJobs_in_time {d : Definition} {handlers : String → Option Handler}
    {order : List Step} {jobs : List (Step × Handler)} (horder : d.executionOrder = .ok order)
    (hassign : assign handlers order = .ok jobs) (htimeouts : ∀ s ∈ d.steps, s.timeout.isSome)
    (delay start : Nat) : ∃ calls outcomes finish,
      finish ≤ start + d.occupied delay outcomes ∧ ∀ clock, finish ≤ clock →
        runJobs delay clock jobs [] start = ⟨calls, .finished outcomes finish⟩ := by
  have hjobs : ∀ job ∈ jobs, job.1.timeout.isSome := by
    intro job hjob
    have hmem : job.1 ∈ order := (assign_eq_ok hassign).1 ▸ List.mem_map_of_mem hjob
    exact htimeouts _ ((executionOrder_eq_ok horder).2.1.subset hmem)
  obtain ⟨calls, outcomes, finish, -, hrun⟩ := jobsEnd_of_timeout hjobs [] start
  obtain ⟨turns, hschedule, -, rfl, -⟩ :=
    exists_schedule_of_runJobs horder hassign (hrun finish le_rfl)
  exact ⟨calls, _, finish, hschedule.finish_le htimeouts, hrun⟩

namespace Runner

/-- A live run whose steps all have limits is still in time. -/
theorem exists_finish_of_live {delay : Nat} {ops : List Operation} {run : LiveRun}
    (live : run ∈ (reached delay ops).live) {p : Plan} (hjobs : p.jobs = .ok run.jobs)
    (htimeouts : ∀ s ∈ p.definition.steps, s.timeout.isSome) :
    ∃ calls outcomes finish, (reached delay ops).clock < finish ∧
      finish ≤ run.start + p.definition.occupied delay outcomes ∧ ∀ clock, finish ≤ clock →
        run.progress delay clock = ⟨calls, .finished outcomes finish⟩ := by
  obtain ⟨⟨events, hhistory⟩, hrest⟩ := reached_spec delay ops
  obtain ⟨order, horder, hassign⟩ := Plan.jobs_eq_ok hjobs
  have hhandlers := assign_map (fun name worker => worker.handler name run.passages) hassign
  obtain ⟨calls, outcomes, finish, hle, hrun⟩ :=
    Definition.exists_runJobs_in_time horder hhandlers htimeouts delay run.start
  refine ⟨calls, outcomes, finish, Nat.lt_of_not_le fun hover => ?_, hle, hrun⟩
  -- Between operations a live run is never over.
  obtain ⟨wake, hbusy⟩ := isAtRest hrest live
  have hdelay : (reached delay ops).delay = delay := Changes.delay_eq hhistory
  have hfinished : run.progress delay (reached delay ops).clock = _ := hrun _ hover
  rw [hdelay, hfinished] at hbusy
  cases hbusy

theorem report_of_timeouts {delay : Nat} {ops : List Operation} {p : Plan}
    (htimeouts : ∀ s ∈ p.definition.steps, s.timeout.isSome)
    (hadmitted : ∀ failure, ¬p.Refused ((reached delay ops).active p.definition.id) failure) :
    ∃ outcomes called, ((reached delay ops).run p).2 =
      .ended ⟨(reached delay ops).tickets, .ok ⟨p.definition.id, outcomes⟩, called⟩ := by
  obtain ⟨⟨events, hhistory⟩, hrest⟩ := reached_spec delay ops
  have hends : p.Ends := fun s hs _ _ _ => Or.inl (htimeouts s hs)
  exact ((answers hhistory hrest p).report hadmitted).resolve_right fun h => h.2 hends

end Runner

/-- Attempts of a step with a time limit end by it, whatever the handler does, and the next begins
after the delay, so the step is over in time. If all steps have limits, a run is over within the sum
of what its steps may take; in a runner each run has then been over in time or still is in it. -/
theorem over_in_time :
    (∀ (s : Step) (limit : Nat), s.timeout = some limit →
      ∀ (handler : Handler) (delay start : Nat), ∃ trials o finish,
        s.KeepsTime limit handler delay start trials ∧ o.attempts = trials.length ∧
        finish ≤ start + s.longest delay o.attempts ∧
        (∀ clock, (s.run handler delay clock start).calls =
          (trials.filter (·.start ≤ clock)).map (Trial.call s.name)) ∧
        ∀ clock, finish ≤ clock → s.run handler delay clock start =
          ⟨trials.map (Trial.call s.name), .finished o finish⟩) ∧
    (∀ (d : Definition) (handlers : String → Option Handler) (order : List Step)
      (jobs : List (Step × Handler)), d.executionOrder = .ok order →
      assign handlers order = .ok jobs → (∀ s ∈ d.steps, s.timeout.isSome) →
      ∀ delay start : Nat, ∃ calls outcomes finish,
        finish ≤ start + d.occupied delay outcomes ∧ ∀ clock, finish ≤ clock →
          runJobs delay clock jobs [] start = ⟨calls, .finished outcomes finish⟩) ∧
    (∀ (d : Definition) (handlers : String → Option Handler) (delay start : Nat)
      (calls : List Call) (report : Report), d.Ran handlers delay start calls report →
        report.IsTimely d handlers delay start calls) ∧
    (∀ (delay : Nat) (events : List Event) (r : Runner) (p : Plan) (ticket : Nat)
      (calls : List Call) (report : Report), Runner.History delay events r →
      .accepted ticket p ∈ events → .finished ticket calls report ∈ events →
        ∃ passages start, report.IsTimely p.definition (p.handlers passages) delay start calls) ∧
    ∀ (delay : Nat) (ops : List Runner.Operation) (p : Plan),
      (∀ s ∈ p.definition.steps, s.timeout.isSome) →
      (∀ run ∈ (Runner.reached delay ops).live, p.jobs = .ok run.jobs →
        ∃ calls outcomes finish, (Runner.reached delay ops).clock < finish ∧
          finish ≤ run.start + p.definition.occupied delay outcomes ∧ ∀ clock, finish ≤ clock →
            run.progress delay clock = ⟨calls, .finished outcomes finish⟩) ∧
      ((∀ failure, ¬p.Refused ((Runner.reached delay ops).active p.definition.id) failure) →
        ∃ outcomes called, ((Runner.reached delay ops).run p).2 =
          .ended ⟨(Runner.reached delay ops).tickets, .ok ⟨p.definition.id, outcomes⟩,
            called⟩) := by
  refine ⟨fun s limit h => Step.exists_run_of_timeout h,
    fun d handlers order jobs horder hassign h => d.exists_runJobs_in_time horder hassign h,
    fun d handlers delay start calls report h => h.isTimely,
    fun delay events r p ticket calls report h haccepted hfinished => ?_,
    fun delay ops p h => ⟨fun run live hjobs => Runner.exists_finish_of_live live hjobs h,
      Runner.report_of_timeouts h⟩⟩
  obtain ⟨passages, start, hran⟩ := h.exists_ran haccepted hfinished
  exact ⟨passages, start, hran.isTimely⟩

/-- A step that never ends by itself, one that needs it, and one that does not. -/
def hangingPlan : Plan :=
  ⟨{ id := "sync", steps := [{ name := "load", retries := 1, timeout := some 5 },
      { name := "report", dependencies := ["load"], timeout := some 4 },
      { name := "clean", timeout := some 4 }] },
    [("load", fun _ => { length := none, answer := .ok .null }),
      ("report", fun _ => { answer := .ok .null }),
      ("clean", fun _ => { length := some 2, answer := .ok .null })]⟩

def hangingCalls : List Call :=
  [⟨"load", 1, 0⟩, ⟨"load", 2, 8⟩, ⟨"clean", 1, 13⟩]

def hangingReport : Report :=
  ⟨"sync", [.failed "load" 2 (.stepTimeout "load" 5) 0 13, .blocked "report" "load",
    .succeeded "clean" 1 .null 13 15]⟩

theorem over_in_time_hanging :
    (∃ s ∈ hangingPlan.definition.steps, s.timeout = some 5 ∧ ∃ trials,
      s.KeepsTime 5 (fun _ _ => ⟨none, .ok .null⟩) 3 0 trials) ∧
    (∃ order jobs, hangingPlan.definition.executionOrder = .ok order ∧
      assign (hangingPlan.handlers []) order = .ok jobs ∧ ∃ calls outcomes finish,
        finish ≤ 0 + hangingPlan.definition.occupied 3 outcomes ∧ ∀ clock, finish ≤ clock →
          runJobs 3 clock jobs [] 0 = ⟨calls, .finished outcomes finish⟩) ∧
    (hangingPlan.definition.Ran (hangingPlan.handlers []) 3 0 hangingCalls hangingReport ∧
      hangingReport.IsTimely hangingPlan.definition (hangingPlan.handlers []) 3 0 hangingCalls ∧
      hangingPlan.definition.occupied 3 hangingReport.steps = 17) ∧
    (∃ r, Runner.History 3 [.accepted 0 hangingPlan, .finished 0 hangingCalls hangingReport] r ∧
      ∃ passages start, hangingReport.IsTimely hangingPlan.definition
        (hangingPlan.handlers passages) 3 start hangingCalls) ∧
    (∃ run ∈ (Runner.reached 3 [.start hangingPlan]).live,
      hangingPlan.jobs = .ok run.jobs ∧ ∃ calls outcomes finish, 0 < finish ∧
        finish ≤ run.start + hangingPlan.definition.occupied 3 outcomes ∧
        ∀ clock, finish ≤ clock → run.progress 3 clock = ⟨calls, .finished outcomes finish⟩) := by
  have htimeouts : ∀ s ∈ hangingPlan.definition.steps, s.timeout.isSome := by decide
  have hran : hangingPlan.definition.Ran (hangingPlan.handlers []) 3 0 hangingCalls
      hangingReport := ⟨_, _, 15, 15, rfl, rfl, rfl, rfl⟩
  obtain ⟨r, hr⟩ : ∃ r, Runner.History 3
      [.accepted 0 hangingPlan, .finished 0 hangingCalls hangingReport] r :=
    exists_history rfl (rfl : LiveRun.progress 3 15 _ = _)
  obtain ⟨trials, -, -, hkeeps, -⟩ := over_in_time.1
    { name := "load", retries := 1, timeout := some 5 } 5 rfl (fun _ _ => ⟨none, .ok .null⟩) 3 0
  obtain ⟨run, live, hjobs⟩ : ∃ run ∈ (Runner.reached 3 [.start hangingPlan]).live,
      hangingPlan.jobs = .ok run.jobs := ⟨_, List.Mem.head _, rfl⟩
  refine ⟨⟨_, List.mem_cons_self, rfl, trials, hkeeps⟩,
    ⟨_, _, rfl, rfl, over_in_time.2.1 _ (hangingPlan.handlers []) _ _ rfl rfl htimeouts 3 0⟩,
    ⟨hran, over_in_time.2.2.1 _ _ _ _ _ _ hran, by decide⟩,
    ⟨r, hr, over_in_time.2.2.2.1 3 _ r hangingPlan 0 _ _ hr (by simp) (by simp)⟩,
    ⟨run, live, hjobs, ?_⟩⟩
  exact (over_in_time.2.2.2.2 3 _ hangingPlan htimeouts).1 run live hjobs

end MediaCatalog.Workflow
