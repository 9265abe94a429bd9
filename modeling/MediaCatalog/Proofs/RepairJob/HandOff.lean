import MediaCatalog.Proofs.BatchedUpdate.Payload
import MediaCatalog.Proofs.BatchedUpdate.Polling
import MediaCatalog.Proofs.RepairJob.Queries
import MediaCatalog.Proofs.Workflow.Alone
import MediaCatalog.RepairJob.Run

/-!
# Hand-off — a repair job asks for its rows to be updated at most once

The workflow of a repair job has two steps, and neither is taken a second time. The first one
decides whether the second is taken at all (`RepairJob.Taken`); the second one talks to the
orchestrator, and only the first request of that conversation starts anything
(`posts_startAndAwait`).
-/

namespace MediaCatalog

/-! ## 1. A step that is not taken again -/

namespace Workflow.Step

/-- What a step leaves whose last attempt came to this answer. -/
def outcome (s : Step) (number began finish : Nat) : Except Failure Json → Outcome
  | .ok output => .succeeded s.name number output began finish
  | .error failure => .failed s.name number failure began finish

theorem isSuccess_outcome (s : Step) (number began finish : Nat) (answer : Except Failure Json) :
    (s.outcome number began finish answer).isSuccess = answer.isOk := by
  cases answer with
  | ok output => rfl
  | error failure =>
    rw [outcome, Outcome.failed, Outcome.isSuccess]
    dsimp only
    split <;> rfl

theorem step_outcome (s : Step) (number began finish : Nat) (answer : Except Failure Json) :
    (s.outcome number began finish answer).step = s.name := by
  cases answer <;> rfl

theorem attempts_outcome (s : Step) (number began finish : Nat) (answer : Except Failure Json) :
    (s.outcome number began finish answer).attempts = number := by
  cases answer <;> rfl

theorem run_of_maxAttempts_eq_one {s : Step} {handler : Handler} {delay clock start finish : Nat}
    {calls : List Call} {o : Outcome} (hattempts : s.maxAttempts = 1)
    (h : s.run handler delay clock start = ⟨calls, .finished o finish⟩) :
    calls = [⟨s.name, 1, start⟩] ∧ ∃ answer,
      s.ending? start (handler start 1) = some (finish, answer) ∧
      o = s.outcome 1 start finish answer := by
  obtain ⟨moments, p, hcourse⟩ := exists_course s handler delay start clock 0 1 start
  rw [run, hattempts, hcourse.eq.1] at h
  cases hcourse with
  | early | endless | going => cases h
  | succeeded _ ending | failed _ ending =>
    cases h
    exact ⟨rfl, _, ending, rfl⟩

end Workflow.Step

/-- A run that has ended has taken its first step once and then the others. -/
theorem Workflow.runJobs_cons_of_maxAttempts_eq_one {delay clock start finish : Nat} {s : Step}
    {handler : Handler} {jobs : List (Step × Handler)} {done outcomes : List Outcome}
    {calls : List Call} (hattempts : s.maxAttempts = 1) (hfree : s.blockedBy? done = none)
    (h : runJobs delay clock ((s, handler) :: jobs) done start =
      ⟨calls, .finished outcomes finish⟩) :
    ∃ time answer later, s.ending? start (handler start 1) = some (time, answer) ∧
      calls = ⟨s.name, 1, start⟩ :: later ∧
      runJobs delay clock jobs (done ++ [s.outcome 1 start time answer]) time =
        ⟨later, .finished outcomes finish⟩ := by
  rw [runJobs, hfree] at h
  dsimp only at h
  split at h
  next first o time hran =>
    obtain ⟨later, hrest, rfl⟩ := Progress.after_eq h
    obtain ⟨rfl, answer, hending, rfl⟩ := Step.run_of_maxAttempts_eq_one hattempts hran
    exact ⟨time, answer, later, hending, rfl, hrest⟩
  next => cases h

namespace RepairJob
open BatchedUpdate (Payload Tells Trigger)
open Http (Conversation Exchange)
open Workflow (Call Outcome Report Runner Step)

/-! ## 2. The two steps -/

/-- The work of a run, by what the database and the conversation with the orchestrator come to. -/
def plan (database : Database) (length : Nat)
    (result : Option (Except Failure BatchedUpdate.RunStatus)) : Workflow.Plan :=
  ⟨workflow, [(installStep, installer database), (triggerStep, updater length result)]⟩

/-- The function was installed. -/
def Database.IsDone (d : Database) : Prop :=
  ∃ delay, d = .done delay

/-- What a run of both steps calls and leaves: the second step is taken if the first one succeeded,
and succeeds if the conversation does so within the time that the step has. -/
inductive Taken (database : Database) (length : Nat)
    (result : Option (Except Failure BatchedUpdate.RunStatus)) :
    List Call → List Outcome → Prop where
  | stopped {install : Outcome} (failed : ¬database.IsDone) (step : install.step = installStep)
      (attempts : install.attempts = 1) (isSuccess : install.isSuccess = false) :
    Taken database length result [⟨installStep, 1, 0⟩] [install, .blocked triggerStep installStep]
  | through {install update : Outcome} {time : Nat} (done : database.IsDone)
      (install_step : install.step = installStep) (install_attempts : install.attempts = 1)
      (installed : install.isSuccess = true) (step : update.step = triggerStep)
      (attempts : update.attempts = 1)
      (isSuccess_iff : update.isSuccess = true ↔
        (∃ status, result = some (.ok status)) ∧ length ≤ triggerTimeout) :
    Taken database length result [⟨installStep, 1, 0⟩, ⟨triggerStep, 1, time⟩] [install, update]

variable {database : Database} {length : Nat}
  {result : Option (Except Failure BatchedUpdate.RunStatus)}

/-- The first step is taken once, whatever comes of it. -/
theorem Taken.installs {calls : List Call} {outcomes : List Outcome}
    (h : Taken database length result calls outcomes) :
    calls.filter (·.step == installStep) = [⟨installStep, 1, 0⟩] := by
  cases h <;> rfl

theorem ends_plan (database : Database) (length : Nat)
    (result : Option (Except Failure BatchedUpdate.RunStatus)) :
    (plan database length result).Ends := by
  intro s hs worker hfound number
  rcases List.mem_pair.mp hs with rfl | rfl
  · obtain rfl : installer database = worker := Option.some.inj hfound
    cases database <;> exact Or.inr ⟨rfl, rfl⟩
  · exact Or.inl rfl

/-- The conversation succeeds, and the step has not come to its time limit before. -/
theorem isOk_of_ending? {s : Step} {start number time : Nat} {answer : Except Failure Json}
    (hlimit : s.timeout = some triggerTimeout)
    (h : s.ending? start ((updater length result).handler s.name [] start number) =
      some (time, answer)) :
    answer.isOk = true ↔ (∃ status, result = some (.ok status)) ∧ length ≤ triggerTimeout := by
  unfold Step.ending? at h
  rw [hlimit] at h
  cases result with
  | none =>
    -- The conversation has no end of its own, so the step ends at its limit.
    cases h
    exact ⟨nofun, nofun⟩
  | some result =>
    have hended : (if length ≤ triggerTimeout then
        some (start + length, (result.map BatchedUpdate.RunStatus.json)) else
          some (start + triggerTimeout, .error (.stepTimeout s.name triggerTimeout))) =
        some (time, answer) := by
      cases result <;> exact h
    split at hended
    next hle =>
      cases hended
      cases result with
      | ok status => exact ⟨fun _ => ⟨⟨status, rfl⟩, hle⟩, fun _ => rfl⟩
      | error failure => exact ⟨nofun, nofun⟩
    next hlate =>
      cases hended
      exact ⟨nofun, fun h => absurd h.2 hlate⟩

theorem taken_of_ran {calls : List Call} {report : Report} {delay : Nat}
    (h : workflow.Ran ((plan database length result).handlers []) delay 0 calls report) :
    Taken database length result calls report.steps := by
  obtain ⟨order, jobs, clock, finish, horder, hjobs, hrun, -⟩ := h
  obtain ⟨id, outcomes⟩ := report
  cases horder
  cases hjobs
  obtain ⟨time, answer, later, hending, rfl, hrest⟩ :=
    Workflow.runJobs_cons_of_maxAttempts_eq_one rfl rfl hrun
  cases database with
  | done wait =>
    cases hending
    obtain ⟨time, answer, later, hending, rfl, hend⟩ :=
      Workflow.runJobs_cons_of_maxAttempts_eq_one rfl rfl hrest
    cases hend
    refine .through ⟨wait, rfl⟩ rfl rfl rfl (Step.step_outcome _ _ _ _ _)
      (Step.attempts_outcome _ _ _ _ _) ?_
    rw [Step.isSuccess_outcome]
    exact isOk_of_ending? rfl hending
  | refused | unreachable =>
    cases hending
    cases hrest
    exact .stopped nofun rfl rfl rfl

/-! ## 3. The conversation with the orchestrator -/

section Conversation
variable (t : Trigger) (server : Http.Server) (run : String) (payload : Payload) (now : Nat)

/-- The request that starts a run, with its answer. -/
def opening : Exchange :=
  .made server (t.startRequest run payload) { clock := now }

/-- The orchestrator starts a run, and by some time this comes of it, for the run that it has
started. -/
def ComesTo (limit : Nat)
    (result : BatchedUpdate.RunStatus → Option (Except Failure BatchedUpdate.RunStatus)) : Prop :=
  ∃ created rest last, Tells (opening t server run payload now) created ∧
    t.Polling server created.run ((opening t server run payload now).answered + t.timeout)
      (opening t server run payload now)
      (Conversation.send server (t.startRequest run payload) { clock := now }).1
      rest last (result created) ∧
    last.clock ≤ limit

/-- The orchestrator starts a run and tells of its success: no answer before that one fails or tells
of an end, each leaves time for a pause before the deadline of the trigger, and the last comes in
time. -/
def ReachesSuccess (limit : Nat) : Prop :=
  ComesTo t server run payload now limit fun created => some (.ok ⟨created.run, .success⟩)

/-- The orchestrator starts a run, and in time it comes to a moment that the clock cannot tell. -/
def OutrunsClock (limit : Nat) : Prop :=
  ComesTo t server run payload now limit fun _ => none

/-- The exchanges of the conversation, and what comes of them. -/
theorem exists_polling_opening : ∃ named rest,
    (∀ created, Tells (opening t server run payload now) created → named = created.run) ∧
    Http.Dialogue server { clock := now } (opening t server run payload now :: rest)
      (t.startAndAwait server run payload { clock := now }).1 ∧
    t.Polling server named ((opening t server run payload now).answered + t.timeout)
      (opening t server run payload now)
      (Conversation.send server (t.startRequest run payload) { clock := now }).1 rest
      (t.startAndAwait server run payload { clock := now }).1
      (t.startAndAwait server run payload { clock := now }).2 := by
  obtain ⟨named, rest, hnamed, hpolling⟩ :=
    Trigger.exists_polling t server run payload { clock := now } rfl
  exact ⟨named, rest, hnamed, .cons 0 (t.startRequest run payload) hpolling.dialogue, hpolling⟩

theorem comesTo_iff (limit : Nat)
    (result : BatchedUpdate.RunStatus → Option (Except Failure BatchedUpdate.RunStatus)) :
    ComesTo t server run payload now limit result ↔
      (∃ created, Tells (opening t server run payload now) created ∧
        (t.startAndAwait server run payload { clock := now }).2 = result created) ∧
        (t.startAndAwait server run payload { clock := now }).1.clock ≤ limit := by
  obtain ⟨named, rest, hnamed, -, hpolling⟩ :=
    exists_polling_opening t server run payload now
  constructor
  · rintro ⟨created, rest', last, htells, hcomes, hlimit⟩
    rw [hnamed created htells] at hpolling
    obtain ⟨hlast, hresult⟩ := hcomes.unique hpolling
    rw [← hlast]
    exact ⟨⟨created, htells, hresult.symm⟩, hlimit⟩
  · rintro ⟨⟨created, htells, hresult⟩, hlimit⟩
    rw [hresult, hnamed created htells] at hpolling
    exact ⟨created, rest, _, htells, hpolling, hlimit⟩

theorem reachesSuccess_iff (limit : Nat) :
    ReachesSuccess t server run payload now limit ↔
      (∃ status, (t.startAndAwait server run payload { clock := now }).2 = some (.ok status)) ∧
        (t.startAndAwait server run payload { clock := now }).1.clock ≤ limit := by
  rw [ReachesSuccess, comesTo_iff]
  refine and_congr_left fun _ => ⟨fun ⟨created, _, hresult⟩ => ⟨_, hresult⟩, ?_⟩
  rintro ⟨status, hstatus⟩
  obtain ⟨named, rest, hnamed, -, hpolling⟩ :=
    exists_polling_opening t server run payload now
  obtain ⟨e, he, hverdict⟩ := (hpolling.eq_iff _).mp hstatus
  obtain ⟨⟨-, rfl⟩, status', htells, -⟩ := Trigger.Verdict.ok_iff.mp hverdict
  obtain ⟨created, hcreated⟩ := hpolling.exists_tells he htells
  rw [hnamed created hcreated] at hstatus
  exact ⟨created, hcreated, hstatus⟩

theorem outrunsClock_iff (limit : Nat) :
    OutrunsClock t server run payload now limit ↔
      (t.startAndAwait server run payload { clock := now }).2 = none ∧
        (t.startAndAwait server run payload { clock := now }).1.clock ≤ limit := by
  rw [OutrunsClock, comesTo_iff]
  refine and_congr_left fun _ => ⟨fun ⟨created, _, hresult⟩ => hresult, fun hnone => ?_⟩
  obtain ⟨named, rest, -, -, hpolling⟩ := exists_polling_opening t server run payload now
  obtain ⟨e, he, hverdict⟩ := (hpolling.eq_iff _).mp hnone
  obtain ⟨status, htells, -⟩ := Trigger.Verdict.untold_iff.mp hverdict
  obtain ⟨created, hcreated⟩ := hpolling.exists_tells he htells
  exact ⟨created, hcreated, hnone⟩

/-- That takes a pause or a timeout which is about as long as the clock reaches. -/
theorem clockEnd_le_of_outrunsClock {limit : Nat}
    (h : OutrunsClock t server run payload now limit) :
    clockEnd ≤ limit + t.timeout ∨ clockEnd ≤ limit + t.pause := by
  obtain ⟨hnone, hlimit⟩ := (outrunsClock_iff t server run payload now limit).mp h
  obtain ⟨named, rest, -, hdialogue, hpolling⟩ := exists_polling_opening t server run payload now
  obtain ⟨e, he, hverdict⟩ := (hpolling.eq_iff _).mp hnone
  obtain ⟨status, -, hbeyond⟩ := Trigger.Verdict.untold_iff.mp hverdict
  rcases hbeyond with hdeadline | ⟨-, hpause⟩
  · have hanswered := hdialogue.answered_le _ List.mem_cons_self
    exact Or.inl (by omega)
  · have hanswered := hdialogue.answered_le e he
    exact Or.inr (by omega)

/-- Only the first request of the conversation starts anything. -/
theorem posts_startAndAwait :
    (t.startAndAwait server run payload { clock := now }).1.sent.filter
        (·.request.method == "POST") = (opening t server run payload now).received?.toList := by
  obtain ⟨named, rest, -, hdialogue, hpolling⟩ :=
    exists_polling_opening t server run payload now
  obtain ⟨hopening, hrest⟩ := List.forall_mem_cons.mp hdialogue.outgoing
  have hposted : (opening t server run payload now).received?.toList.filter
      (·.request.method == "POST") = (opening t server run payload now).received?.toList := by
    refine List.filter_eq_self.mpr fun sent hsent => ?_
    obtain ⟨u, hrequest⟩ := hopening sent (Option.mem_toList.mp hsent)
    rw [hrequest]
    rfl
  have hasked : (rest.filterMap Exchange.received?).filter (·.request.method == "POST") = [] := by
    refine List.filter_eq_nil_iff.mpr fun sent hsent => ?_
    obtain ⟨e, he, hreceived⟩ := List.mem_filterMap.mp hsent
    obtain ⟨u, hrequest⟩ := hrest e he sent hreceived
    rw [hrequest, hpolling.requests e he]
    show ¬("GET" == "POST") = true
    decide
  rw [hdialogue.sent_eq, List.nil_append, List.filterMap_eq_flatMap_toList, List.flatMap_cons,
    ← List.filterMap_eq_flatMap_toList, List.filter_append, hasked, List.append_nil, hposted]

/-- That request is sent at once, so no time limit keeps it back. -/
theorem posts_in_time (length : Nat) :
    ((t.startAndAwait server run payload { clock := now }).1.sent.filter
        (·.time ≤ now + length)).filter (·.request.method == "POST") =
      (opening t server run payload now).received?.toList := by
  rw [List.filter_comm, posts_startAndAwait]
  refine List.filter_eq_self.mpr fun sent hsent => ?_
  obtain ⟨htime, -⟩ := Exchange.received?_eq_some (Option.mem_toList.mp hsent)
  rw [htime]
  exact decide_eq_true (Nat.le_add_right now length)

/-- What it hands over is the payload. -/
theorem conf_opening {sent : Http.Sent}
    (h : (opening t server run payload now).received? = some sent) :
    Json.parse? sent.request.body =
      some (.object [("dag_run_id", .string run), ("conf", payload.json)]) := by
  obtain ⟨named, rest, -, hdialogue, -⟩ := exists_polling_opening t server run payload now
  obtain ⟨u, hrequest⟩ := hdialogue.outgoing _ List.mem_cons_self sent h
  have hbody : sent.request.body = (t.startRequest run payload).body := by
    rw [hrequest]
    rfl
  rw [hbody, BatchedUpdate.parse?_body]

end Conversation

/-! ## 4. The whole run -/

/-- What a run of a job does whose table has a proper name: what it asks of the database and of the
orchestrator, and what it reports. -/
structure HandsOff (payload : Payload) (run : String) (database : Database) (t : Trigger)
    (server : Http.Server) (now : Nat) (trace : Trace) : Prop where
  /-- There is no report if the program breaks off at a moment that the clock cannot tell. -/
  none_iff : trace.report = none ↔
    database.IsDone ∧ OutrunsClock t server run payload now (now + triggerTimeout)
  /-- It does not, as long as the clock can tell all that there is time for. -/
  reported : now + triggerTimeout + t.timeout < clockEnd →
    now + triggerTimeout + t.pause < clockEnd → ∃ report, trace.report = some (.ok report)
  /-- There is one attempt to install the function, and one at most to have the rows updated. -/
  attempts : ∀ result, trace.report = some result → ∃ install update,
    result = .ok ⟨id, [install, update]⟩ ∧ install.step = installStep ∧ install.attempts = 1 ∧
      update.step = triggerStep ∧ update.attempts ≤ 1
  /-- The statement is executed in that one attempt, be it refused or not. -/
  statements : ∀ delay, (database = .done delay ∨ ∃ reason, database = .refused delay reason) →
    trace.statements = [installStatement]
  /-- Without a connection nobody receives it. -/
  unreached : ∀ reason, database = .unreachable reason → trace.statements = []
  unsent : ¬database.IsDone → trace.requests = []
  /-- Whatever comes of it, the request that starts a run is never sent again. -/
  posts : database.IsDone → trace.requests.filter (·.request.method == "POST") =
    (opening t server run payload now).received?.toList
  posts_le : (trace.requests.filter (·.request.method == "POST")).length ≤ 1
  /-- What it hands over is the payload and nothing else. -/
  conf : ∀ sent ∈ trace.requests, sent.request.method = "POST" →
    Json.parse? sent.request.body =
      some (.object [("dag_run_id", .string run), ("conf", payload.json)])
  succeeded_iff : (∃ report, trace.report = some (.ok report) ∧ report.succeeded = true) ↔
    database.IsDone ∧ ReachesSuccess t server run payload now (now + triggerTimeout)

section Run
variable {j : RepairJob}

/-- A run leaves what its two steps leave, by the calls of each. -/
theorem exists_taken_run {payload : Payload} (hpayload : j.payload = .ok payload)
    (database : Database) (t : Trigger) (server : Http.Server) (unique : String) (now : Nat)
    {conversation : Conversation} {result : Option (Except Failure BatchedUpdate.RunStatus)}
    (hasked : t.startAndAwait server (Trigger.runId payload unique) payload { clock := now } =
      (conversation, result)) :
    ∃ calls outcomes, Taken database (conversation.clock - now) result calls outcomes ∧
      j.run database t server unique now =
        { report :=
            if !(calls.filter (·.step == triggerStep)).isEmpty && result.isNone &&
              conversation.clock ≤ now + triggerTimeout then none else some (.ok ⟨id, outcomes⟩)
          statements := database.received installStatement
          requests := (calls.filter (·.step == triggerStep)).flatMap fun _ =>
            conversation.sent.filter (·.time ≤ now + triggerTimeout) } := by
  have hactive : 0 < workflow.maxActiveRuns.toNat := by decide
  have hjobs : (plan database (conversation.clock - now) result).jobs = .ok _ := rfl
  obtain ⟨calls, outcomes, hran, hended, hlog⟩ :=
    Runner.run_alone hjobs hactive (ends_plan database (conversation.clock - now) result) 60000
  have htaken := taken_of_ran hran
  refine ⟨calls, outcomes, htaken, ?_⟩
  have hcalls : (Runner.run (plan database (conversation.clock - now) result) {}).1.log.map
      Workflow.LogEntry.call = calls := by
    rw [hlog, List.map_map]
    exact List.map_id calls
  unfold run
  rw [hpayload]
  dsimp only
  rw [hasked]
  dsimp only
  rw [← plan, hended, hcalls, htaken.installs, List.flatMap_singleton]
  rfl

variable {conversation : Conversation} {now : Nat} {calls : List Call} {outcomes : List Outcome}
  {trace : Trace}

/-- What the steps have to do with the report. -/
theorem report_of_taken (h : Taken database (conversation.clock - now) result calls outcomes)
    (hreport : trace.report = if !(calls.filter (·.step == triggerStep)).isEmpty && result.isNone &&
      conversation.clock ≤ now + triggerTimeout then none else some (.ok ⟨id, outcomes⟩)) :
    (trace.report = none ↔
      database.IsDone ∧ result = none ∧ conversation.clock ≤ now + triggerTimeout) ∧
    (∀ ended, trace.report = some ended → ∃ install update, ended = .ok ⟨id, [install, update]⟩ ∧
      install.step = installStep ∧ install.attempts = 1 ∧
      update.step = triggerStep ∧ update.attempts ≤ 1) ∧
    ((∃ report, trace.report = some (.ok report) ∧ report.succeeded = true) ↔ database.IsDone ∧
      (∃ status, result = some (.ok status)) ∧ conversation.clock ≤ now + triggerTimeout) := by
  cases h with
  | @stopped install failed step attempts isSuccess =>
    have hended : trace.report =
        some (.ok ⟨id, [install, .blocked triggerStep installStep]⟩) := hreport
    rw [hended]
    refine ⟨iff_of_false (Option.some_ne_none _) fun h => failed h.1, fun ended hsome => ?_, ?_,
      fun h => absurd h.1 failed⟩
    · cases hsome
      exact ⟨_, _, rfl, step, attempts, rfl, Nat.zero_le 1⟩
    · rintro ⟨report, hsome, hsucceeded⟩
      cases hsome
      rw [Report.succeeded, List.all_cons, isSuccess] at hsucceeded
      cases hsucceeded
  | @through install update time done install_step install_attempts installed step attempts
      isSuccess_iff =>
    have hended : trace.report = if result.isNone && conversation.clock ≤ now + triggerTimeout then
        none else some (.ok ⟨id, [install, update]⟩) := hreport
    have hlength : conversation.clock - now ≤ triggerTimeout ↔
        conversation.clock ≤ now + triggerTimeout := by
      omega
    rw [hlength] at isSuccess_iff
    have hsucceeded : (Report.mk id [install, update]).succeeded = update.isSuccess := by
      rw [Report.succeeded, List.all_cons, installed, List.all_cons, List.all_nil, Bool.true_and,
        Bool.and_true]
    rw [hended]
    split
    next hbreak =>
      rw [Bool.and_eq_true, Option.isNone_iff_eq_none, decide_eq_true_iff] at hbreak
      refine ⟨⟨fun _ => ⟨done, hbreak⟩, fun _ => rfl⟩, fun ended hsome => ?_, ?_, ?_⟩
      · cases hsome
      · rintro ⟨report, hsome, -⟩
        cases hsome
      · rintro ⟨-, ⟨status, hstatus⟩, -⟩
        rw [hbreak.1] at hstatus
        cases hstatus
    next hgoing =>
      rw [Bool.and_eq_true, Option.isNone_iff_eq_none, decide_eq_true_iff] at hgoing
      refine ⟨iff_of_false (Option.some_ne_none _) fun h => hgoing h.2, fun ended hsome => ?_, ?_,
        fun h => ?_⟩
      · cases hsome
        exact ⟨_, _, rfl, install_step, install_attempts, step, Nat.le_of_eq attempts⟩
      · rintro ⟨report, hsome, hreached⟩
        cases hsome
        rw [hsucceeded, isSuccess_iff] at hreached
        exact ⟨done, hreached⟩
      · refine ⟨_, rfl, ?_⟩
        rw [hsucceeded, isSuccess_iff]
        exact h.2

/-- What they have to do with the requests. -/
theorem requests_of_taken (h : Taken database (conversation.clock - now) result calls outcomes) :
    (¬database.IsDone → (calls.filter (·.step == triggerStep)).flatMap
      (fun _ => conversation.sent.filter (·.time ≤ now + triggerTimeout)) = []) ∧
    (database.IsDone → (calls.filter (·.step == triggerStep)).flatMap
      (fun _ => conversation.sent.filter (·.time ≤ now + triggerTimeout)) =
        conversation.sent.filter (·.time ≤ now + triggerTimeout)) := by
  cases h with
  | stopped failed => exact ⟨fun _ => rfl, fun done => absurd done failed⟩
  | through done =>
    exact ⟨fun failed => absurd done failed, fun _ => List.append_nil _⟩

theorem handsOff_run {payload : Payload} (hpayload : j.payload = .ok payload)
    (database : Database) (t : Trigger) (server : Http.Server) (unique : String) (now : Nat) :
    HandsOff payload (Trigger.runId payload unique) database t server now
      (j.run database t server unique now) := by
  have hposted := posts_in_time t server (Trigger.runId payload unique) payload now triggerTimeout
  have hreaches := reachesSuccess_iff t server (Trigger.runId payload unique) payload now
    (now + triggerTimeout)
  have houtruns := outrunsClock_iff t server (Trigger.runId payload unique) payload now
    (now + triggerTimeout)
  -- From here on it does not matter how the conversation came about.
  generalize hasked : t.startAndAwait server (Trigger.runId payload unique) payload { clock := now } =
    asked at hposted hreaches houtruns
  obtain ⟨conversation, result⟩ := asked
  obtain ⟨calls, outcomes, htaken, hrun⟩ :=
    exists_taken_run hpayload database t server unique now hasked
  generalize j.run database t server unique now = trace at hrun
  obtain ⟨hnone, hattempts, hsucceeded⟩ := report_of_taken htaken (congrArg Trace.report hrun)
  obtain ⟨hunsent, hsent⟩ := requests_of_taken htaken
  rw [← houtruns] at hnone
  rw [← hreaches] at hsucceeded
  have hstatements : trace.statements = database.received installStatement := by rw [hrun]
  have hrequests : ¬database.IsDone → trace.requests = [] := by
    rw [hrun]
    exact hunsent
  have hposts : database.IsDone → trace.requests.filter (·.request.method == "POST") =
      (opening t server (Trigger.runId payload unique) payload now).received?.toList := by
    intro done
    rw [← hposted, ← hsent done, hrun]
  have hopening : ∀ sent ∈ trace.requests.filter (·.request.method == "POST"),
      (opening t server (Trigger.runId payload unique) payload now).received? = some sent := by
    intro sent hmem
    by_cases done : database.IsDone
    · rw [hposts done] at hmem
      exact Option.mem_toList.mp hmem
    · rw [hrequests done] at hmem
      cases hmem
  refine ⟨hnone, fun htimeout hpause => ?_, hattempts, fun delay h => ?_, fun reason h => ?_,
    hrequests, hposts, ?_, fun sent hmem hpost => ?_, hsucceeded⟩
  · cases hreport : trace.report with
    | none =>
      rcases clockEnd_le_of_outrunsClock _ _ _ _ _ (hnone.mp hreport).2 with h | h <;> omega
    | some ended =>
      obtain ⟨install, update, rfl, -⟩ := hattempts ended hreport
      exact ⟨_, rfl⟩
  · rw [hstatements]
    rcases h with rfl | ⟨reason, rfl⟩ <;> rfl
  · rw [hstatements, h]
    rfl
  · by_cases done : database.IsDone
    · rw [hposts done]
      exact Option.length_toList_le
    · rw [hrequests done]
      exact Nat.zero_le 1
  · have hfirst := hopening sent (List.mem_filter.mpr ⟨hmem, beq_iff_eq.mpr hpost⟩)
    exact conf_opening _ _ _ _ _ hfirst

/-- Whatever the database and the orchestrator answer, a run of a job refuses a table without a
proper name before anything is sent. Else it installs the function once, then asks once at most for
the rows to be updated, and succeeds if the run that was started does so in time. -/
theorem run_hands_off_once (j : RepairJob) (database : Database) (t : Trigger)
    (server : Http.Server) (unique : String) (now : Nat) :
    (isTableName j.table = false ∧ j.run database t server unique now =
      ⟨some (.error (.invalidTableName j.table)), [], []⟩) ∨
    isTableName j.table = true ∧ ∃ payload, j.payload = .ok payload ∧
      HandsOff payload (Trigger.runId payload unique) database t server now
        (j.run database t server unique now) := by
  cases hname : isTableName j.table with
  | false =>
    refine Or.inl ⟨rfl, ?_⟩
    rw [run, payload_of_not_isTableName hname]
  | true =>
    have hpayload := payload_of_isTableName hname
    exact Or.inr ⟨rfl, _, hpayload, handsOff_run hpayload database t server unique now⟩

end Run

end RepairJob

end MediaCatalog
