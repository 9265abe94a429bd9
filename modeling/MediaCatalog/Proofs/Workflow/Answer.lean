import MediaCatalog.Proofs.Workflow.Waking

/-!
# Answers — a run is refused before its first call, or it ends with a report

A plan is refused for one of three reasons, in a fixed order (`Plan.Refused`), and then nothing has
happened but that a ticket was given. A run that was let in is not refused later: the look-up of a
handler when a step's turn comes always succeeds (`runSteps_eq`), and what has been let in ends with
a report once its attempts have ended.
-/

namespace MediaCatalog.Workflow

/-! ## 1. Refusals -/

/--
Why a plan cannot start when so many runs of its workflow are live. The definition comes first, then
the handlers, then the runs.
-/
inductive Plan.Refused (p : Plan) (active : Nat) : Failure → Prop where
  | invalid (invalid : p.definition.isValid = false) :
    Refused p active (.invalidWorkflow p.definition.id p.definition.errorMessages)
  /-- All steps that come before this one have their work. -/
  | unhandled {before after : List Step} {s : Step}
      (order : p.definition.executionOrder = .ok (before ++ s :: after))
      (handled : ∀ t ∈ before, (p.workers.lookup t.name).isSome)
      (missing : p.workers.lookup s.name = none) :
    Refused p active (.missingHandler s.name)
  | full (valid : p.definition.isValid = true) (handled : p.HasWorkers)
      (full : p.definition.maxActiveRuns.toNat ≤ active) :
    Refused p active (.tooManyActiveRuns p.definition.id active)

theorem assign_of_missing {α : Type} {found : String → Option α} {before after : List Step}
    {s : Step} (hbefore : ∀ t ∈ before, (found t.name).isSome) (hmissing : found s.name = none) :
    assign found (before ++ s :: after) = .error (.missingHandler s.name) := by
  induction before with
  | nil => exact assign_cons_of_none hmissing
  | cons t before ih =>
    obtain ⟨ht, hrest⟩ := List.forall_mem_cons.mp hbefore
    obtain ⟨a, ha⟩ := Option.isSome_iff_exists.mp ht
    rw [List.cons_append, assign_cons_of_some ha, ih hrest]
    rfl

namespace Plan
variable {p : Plan}

theorem startable_of_jobs {jobs : List (Step × Worker)} (h : p.jobs = .ok jobs) :
    p.definition.isValid = true ∧ p.HasWorkers := by
  obtain ⟨order, horder, hassign⟩ := jobs_eq_ok h
  obtain ⟨hvalid, hperm, -⟩ := Definition.executionOrder_eq_ok horder
  obtain ⟨hsteps, hfound⟩ := assign_eq_ok hassign
  refine ⟨hvalid, fun s hs => ?_⟩
  have hmem : s ∈ jobs.map Prod.fst := hsteps ▸ hperm.symm.subset hs
  obtain ⟨job, hjob, rfl⟩ := List.mem_map.mp hmem
  rw [hfound job hjob]
  rfl

theorem refused_of_jobs_error {failure : Failure} (h : p.jobs = .error failure) (active : Nat) :
    p.Refused active failure := by
  unfold jobs at h
  split at h
  next failure' horder =>
    cases hvalid : p.definition.isValid with
    | false =>
      rw [Definition.executionOrder_of_not_isValid hvalid] at horder
      cases horder
      cases h
      exact .invalid hvalid
    | true =>
      obtain ⟨order, -, hok⟩ := Definition.executionOrder_of_isValid hvalid
      rw [hok] at horder
      cases horder
  next order horder =>
    obtain ⟨before, s, after, rfl, hmissing, hbefore, rfl⟩ := assign_eq_error h
    exact .unhandled horder hbefore hmissing

end Plan

theorem Runner.enter_eq_error_iff {r : Runner} {p : Plan} {failure : Failure} :
    r.enter p = .error failure ↔ p.Refused (r.slots.count p.definition.id) failure := by
  constructor
  · intro h
    cases hjobs : p.jobs with
    | error failure' =>
      rw [enter_of_jobs_error hjobs] at h
      cases h
      exact Plan.refused_of_jobs_error hjobs _
    | ok jobs =>
      rw [enter_of_jobs_ok hjobs] at h
      obtain ⟨hvalid, hworkers⟩ := Plan.startable_of_jobs hjobs
      split at h
      next hfull =>
        cases h
        exact .full hvalid hworkers hfull
      next => cases h
  · intro h
    cases h with
    | invalid hvalid =>
      apply enter_of_jobs_error
      unfold Plan.jobs
      rw [Definition.executionOrder_of_not_isValid hvalid]
    | unhandled horder hbefore hmissing =>
      apply enter_of_jobs_error
      unfold Plan.jobs
      rw [horder]
      exact assign_of_missing hbefore hmissing
    | full hvalid hworkers hfull =>
      obtain ⟨jobs, hjobs⟩ := Plan.exists_jobs hvalid hworkers
      rw [enter_of_jobs_ok hjobs, if_pos hfull]

/-! ## 2. The look-up of a handler when the turn of a step comes -/

def Progress.map {α β : Type} (f : α → β) (p : Progress α) : Progress β :=
  ⟨p.calls, match p.standing with
    | .finished value time => .finished (f value) time
    | .busy wake => .busy wake⟩

/--
Takes steps one after the other and looks for the handler of each when its turn comes. Without one
the run is given up.
-/
def runSteps (delay clock : Nat) (handlers : String → Option Handler) :
    List Step → (done : List Outcome) → (start : Nat) →
    Progress (Except Failure (List Outcome))
  | [], done, start => ⟨[], .finished (.ok done) start⟩
  | s :: rest, done, start =>
    match s.blockedBy? done, handlers s.name with
    | some dependency, _ =>
      runSteps delay clock handlers rest (done ++ [.blocked s.name dependency]) start
    | none, some handler =>
      match s.run handler delay clock start with
      | ⟨calls, .finished outcome finish⟩ =>
        (runSteps delay clock handlers rest (done ++ [outcome]) finish).after calls
      | ⟨calls, .busy wake⟩ => ⟨calls, .busy wake⟩
    | none, none => ⟨[], .finished (.error (.missingHandler s.name)) start⟩

/-- If all handlers are there before the first step, no run is given up. -/
theorem runSteps_eq {handlers : String → Option Handler} {steps : List Step}
    {jobs : List (Step × Handler)} (h : assign handlers steps = .ok jobs) (delay clock : Nat)
    (done : List Outcome) (start : Nat) :
    runSteps delay clock handlers steps done start =
      (runJobs delay clock jobs done start).map .ok := by
  induction steps generalizing jobs done start with
  | nil => cases h; rfl
  | cons s steps ih =>
    cases hfound : handlers s.name with
    | none => rw [assign_cons_of_none hfound] at h; cases h
    | some handler =>
      rw [assign_cons_of_some hfound] at h
      cases hrest : assign handlers steps with
      | error failure => rw [hrest] at h; cases h
      | ok rest =>
        rw [hrest] at h
        cases h
        rw [runSteps, hfound]
        cases hblocked : s.blockedBy? done with
        | some dependency =>
          rw [runJobs_of_blocked hblocked]
          exact ih hrest _ _
        | none =>
          rw [runJobs, hblocked]
          dsimp only
          generalize s.run handler delay clock start = p
          obtain ⟨calls, standing⟩ := p
          cases standing with
          | busy wake => rfl
          | finished outcome finish =>
            dsimp only
            rw [ih hrest]
            rfl

/-! ## 3. Results -/

namespace Runner
variable {r s : Runner} {run : LiveRun}

/-- The number of live runs of a workflow. -/
def active (id : String) (r : Runner) : Nat :=
  r.live.countP (·.workflow == id)

theorem slots_count_eq_active {delay : Nat} {events : List Event} (h : History delay events r)
    (id : String) : r.slots.count id = r.active id := by
  have hbooked := Booked.of_history h
  rw [hbooked.slots, activeRuns, ← hbooked.live, List.countP_map]
  rfl

/-- What a runner keeps of a run that is over: a report, or the refusal of a run without calls. -/
theorem ended_of_history {delay : Nat} {events : List Event} (h : History delay events r) :
    ∀ e ∈ r.ended, e.ticket < r.tickets ∧
      ((∃ report, e.result = .ok report) ∨ ∃ failure, e.result = .error failure ∧
        e.called = false ∧ .refused e.ticket failure ∈ events) := by
  unfold History at h
  induction h with
  | refl => simp
  | @tail r s events more first last ih =>
    have hkept : ∀ e ∈ r.ended, e.ticket < r.tickets ∧
        ((∃ report, e.result = .ok report) ∨ ∃ failure, e.result = .error failure ∧
          e.called = false ∧ .refused e.ticket failure ∈ events ++ more) := fun e he =>
      ⟨(ih e he).1, (ih e he).2.imp_right fun ⟨failure, hresult, hcalled, hrefused⟩ =>
        ⟨failure, hresult, hcalled, List.mem_append_left more hrefused⟩⟩
    cases last with
    | accept =>
      exact fun e he => ⟨Nat.lt_succ_of_lt (hkept e he).1, (hkept e he).2⟩
    | @refuse p failure =>
      intro e he
      rcases List.mem_append.mp he with he | he
      · exact ⟨Nat.lt_succ_of_lt (hkept e he).1, (hkept e he).2⟩
      · rw [List.mem_singleton.mp he]
        exact ⟨Nat.lt_succ_self _, Or.inr ⟨failure, rfl, rfl,
          List.mem_append_right _ (List.mem_singleton_self _)⟩⟩
    | @finish run calls outcomes time live =>
      intro e he
      rcases List.mem_append.mp he with he | he
      · exact hkept e he
      · have hlt : run.ticket < r.tickets := ticket_lt_tickets first live
        rw [List.mem_singleton.mp he]
        exact ⟨hlt, Or.inl ⟨_, rfl⟩⟩
    | cancel | proceed | aside => exact hkept
    | forget => exact fun e he => hkept e (List.mem_filter.mp he).1

/-- No result is there of a run that is live. -/
theorem ticket_ne_of_live {delay : Nat} {events : List Event} (h : History delay events r)
    (live : run ∈ r.live) : ∀ e ∈ r.ended, e.ticket ≠ run.ticket := by
  intro e he hticket
  have htraced := Traced.of_history h
  rcases (ended_of_history h e he).2 with ⟨report, hreport⟩ | ⟨failure, -, -, hrefused⟩
  · obtain ⟨calls, hfinished⟩ := htraced.ended e he report hreport
    have hopen := (List.mem_filter.mp ((Booked.of_history h).mem_openRuns live)).2
    have hclosed : events.any (Event.closes run.ticket) = true :=
      List.any_eq_true.mpr ⟨_, hfinished, beq_iff_eq.mpr hticket⟩
    rw [LiveRun.key, hclosed] at hopen
    cases hopen
  · obtain ⟨p, haccepted, -⟩ := htraced.live run live
    cases opening_unique h hrefused haccepted rfl rfl hticket

namespace Onward

/-- No live run is new, and each is still a run of the same work. -/
theorem live (h : r.Onward s) : ∀ run' ∈ s.live, ∃ run ∈ r.live,
    run'.ticket = run.ticket ∧ run'.workflow = run.workflow ∧ run'.jobs = run.jobs := by
  induction h with
  | refl => exact fun run live => ⟨run, live, rfl, rfl, rfl⟩
  | aside _ _ _ _ _ ih => exact ih
  | @proceed s run _ live _ _ ih =>
    intro run' live'
    obtain ⟨old, hold, hreplaced⟩ := List.mem_map.mp live'
    split at hreplaced
    next => rw [← hreplaced]; exact ih run live
    next => rw [← hreplaced]; exact ih old hold
  | finish _ _ _ ih => exact fun run' live' => ih run' (List.mem_filter.mp live').1

/-- Each run is live still, or there is a report of it. -/
theorem ended (h : r.Onward s) : ∃ reports, s.ended = r.ended ++ reports ∧
    (∀ e ∈ reports, ∃ run ∈ r.live, e.ticket = run.ticket ∧
      ∃ outcomes, e.result = .ok ⟨run.workflow, outcomes⟩) ∧
    ∀ run ∈ r.live, (∃ run' ∈ s.live, run'.ticket = run.ticket) ∨
      ∃ e ∈ reports, e.ticket = run.ticket := by
  induction h with
  | refl => exact ⟨[], by simp, by simp, fun run live => Or.inl ⟨run, live, rfl⟩⟩
  | aside _ _ _ _ _ ih => exact ih
  | @proceed s run _ live passages calls ih =>
    obtain ⟨reports, hended, hreports, hlive⟩ := ih
    refine ⟨reports, hended, hreports, fun other hother => ?_⟩
    refine (hlive other hother).imp_left fun ⟨run', live', hticket⟩ => ?_
    refine ⟨_, List.mem_map_of_mem live', ?_⟩
    split
    next heq => exact heq.symm.trans hticket
    next => exact hticket
  | @finish s run calls outcomes time init live _ ih =>
    obtain ⟨reports, hended, hreports, hlive⟩ := ih
    obtain ⟨first, hfirst, hticket, hworkflow, -⟩ := init.live run live
    refine ⟨reports ++ [⟨run.ticket, .ok ⟨run.workflow, outcomes⟩, !calls.isEmpty⟩], ?_, ?_, ?_⟩
    · rw [← List.append_assoc, ← hended]
      rfl
    · refine List.forall_mem_append.mpr ⟨hreports, List.forall_mem_singleton.mpr ?_⟩
      exact ⟨first, hfirst, hticket, outcomes, by rw [hworkflow]⟩
    · intro other hother
      rcases hlive other hother with ⟨run', live', hticket'⟩ | ⟨e, he, hticket'⟩
      · by_cases heq : run'.ticket = run.ticket
        · exact Or.inr ⟨_, List.mem_append_right _ (List.mem_singleton_self _),
            heq.symm.trans hticket'⟩
        · exact Or.inl ⟨run', List.mem_filter.mpr ⟨live', bne_iff_ne.mpr heq⟩, hticket'⟩
      · exact Or.inr ⟨e, List.mem_append_left _ he, hticket'⟩

/-- What a run has become after some time: it has ended with a report, or it is live still. -/
theorem poll (h : r.Onward s) (live : run ∈ r.live)
    (hnodup : (r.live.map LiveRun.ticket).Nodup) (hnew : ∀ e ∈ r.ended, e.ticket ≠ run.ticket) :
    (∃ outcomes called, (s.poll run.ticket).2 =
        .ended ⟨run.ticket, .ok ⟨run.workflow, outcomes⟩, called⟩) ∨
      (s.poll run.ticket).2 = .pending ∧ (s.find? run.ticket).isSome := by
  obtain ⟨reports, hended, hreports, hlive⟩ := h.ended
  unfold Runner.poll
  split
  next e hfind =>
    have hmem := List.mem_of_find?_eq_some hfind
    have hfound := List.find?_some hfind
    have hticket : e.ticket = run.ticket := beq_iff_eq.mp hfound
    rw [hended] at hmem
    have hreport := (List.mem_append.mp hmem).resolve_left fun hold => hnew e hold hticket
    obtain ⟨other, hother, hticket', outcomes, hresult⟩ := hreports e hreport
    have hsame : other = run :=
      List.inj_on_of_nodup_map hnodup hother live (hticket'.symm.trans hticket)
    obtain ⟨ticket, result, called⟩ := e
    subst hsame hresult hticket
    exact Or.inl ⟨outcomes, called, rfl⟩
  next hnone =>
    rw [List.find?_eq_none] at hnone
    have hsome : (s.find? run.ticket).isSome := by
      rcases hlive run live with ⟨run', live', hticket⟩ | ⟨e, he, hticket⟩
      · exact List.find?_isSome.mpr ⟨run', live', beq_iff_eq.mpr hticket⟩
      · have hmem : e ∈ s.ended := hended ▸ List.mem_append_right _ he
        exact absurd (beq_iff_eq.mpr hticket) (hnone e hmem)
    exact Or.inr ⟨if_pos hsome, hsome⟩

end Onward

end Runner

/-! ## 4. Runs whose attempts all end -/

/-- An attempt of the step ends: it has a time limit, or its work has a length and needs no permit. -/
def Step.Ends (s : Step) (work : Work) : Prop :=
  s.timeout.isSome ∨ work.gate = none ∧ work.length.isSome

/-- All attempts of the run end. -/
def LiveRun.Ends (run : LiveRun) : Prop :=
  ∀ job ∈ run.jobs, ∀ number, job.1.Ends (job.2 number)

/-- All attempts of the plan end. -/
def Plan.Ends (p : Plan) : Prop :=
  ∀ s ∈ p.definition.steps, ∀ worker, p.workers.lookup s.name = some worker →
    ∀ number, s.Ends (worker number)

theorem Plan.Ends.jobs {p : Plan} {jobs : List (Step × Worker)} (h : p.Ends)
    (hjobs : p.jobs = .ok jobs) : ∀ job ∈ jobs, ∀ number, job.1.Ends (job.2 number) := by
  intro job hjob number
  obtain ⟨order, horder, hassign⟩ := jobs_eq_ok hjobs
  obtain ⟨-, hperm, -⟩ := Definition.executionOrder_eq_ok horder
  obtain ⟨hsteps, hfound⟩ := assign_eq_ok hassign
  have hmem : job.1 ∈ order := hsteps ▸ List.mem_map_of_mem hjob
  exact h job.1 (hperm.subset hmem) job.2 (hfound job hjob) number

theorem Step.Ends.ending?_isSome {s : Step} {worker : Worker} {number : Nat}
    (h : s.Ends (worker number)) (name : String) (passages : List Passage) (start : Nat) :
    (s.ending? start (worker.handler name passages start number)).isSome := by
  unfold Step.ending?
  rcases h with htimeout | ⟨hgate, hlength⟩
  · obtain ⟨limit, htimeout⟩ := Option.isSome_iff_exists.mp htimeout
    rw [htimeout]
    cases (worker.handler name passages start number).length with
    | none => rfl
    | some length =>
      dsimp only
      split <;> rfl
  · obtain ⟨length, hlength⟩ := Option.isSome_iff_exists.mp hlength
    simp only [Worker.handler, hgate, hlength]
    cases s.timeout with
    | none => rfl
    | some limit =>
      dsimp only
      split <;> rfl

namespace Runner
variable {r : Runner}

theorem wake?_isSome {run : LiveRun} (hrest : run.IsAtRest r.delay r.clock) (hends : run.Ends) :
    (r.wake? run).isSome := by
  refine (run.course r.delay r.clock).exists_wake ?_ (wake?_of_isAtRest hrest)
  refine List.forall_mem_map.mpr fun job hjob start number => ?_
  exact (hends job hjob number).ending?_isSome _ _ _

/-- After as many wakes as there are turns, a run whose attempts all end is over. -/
theorem find?_awaitRun {ticket wakes : Nat} (h : r.AtRest)
    (hends : ∀ run ∈ r.live, run.ticket = ticket → run.Ends) (hwakes : r.turnsLeft ≤ wakes) :
    (r.awaitRun ticket wakes).find? ticket = none := by
  induction wakes generalizing r with
  | zero =>
    refine Option.eq_none_iff_forall_ne_some.mpr fun run hfind => ?_
    have hmem : run.turnsLeft r.delay r.clock ∈ r.live.map (LiveRun.turnsLeft r.delay r.clock) :=
      List.mem_map_of_mem (mem_of_find? hfind).1
    have hle := List.le_sum_of_mem hmem
    have hpos := run.turnsLeft_pos r.delay r.clock
    unfold turnsLeft at hwakes
    omega
  | succ wakes ih =>
    rw [awaitRun]
    split
    next run next hfind hnext =>
      refine ih (atRest_wakeAt h hnext) (fun run' live' hticket => ?_) ?_
      · obtain ⟨run, live, hsame, -, hjobs⟩ := (onward_wakeAt next r).live run' live'
        intro job hjob
        exact hends run live (hsame.symm.trans hticket) job (hjobs ▸ hjob)
      · have hless := turnsLeft_wakeAt_lt h hnext
        omega
    next hstuck =>
      -- A live run would wake some time.
      refine Option.eq_none_iff_forall_ne_some.mpr fun run hfind => ?_
      obtain ⟨live, hticket⟩ := mem_of_find? hfind
      have hwake := wake?_isSome (isAtRest h live) (hends run live hticket)
      obtain ⟨wake, hwake⟩ := Option.isSome_iff_exists.mp hwake
      obtain ⟨next, hnext, -⟩ := exists_nextWake? live hwake
      exact hstuck run next hfind hnext

end Runner

/-! ## 5. What a runner answers -/

namespace Runner

/-- How a runner answers when it is asked to run a plan. -/
structure Answers (r : Runner) (p : Plan) : Prop where
  /-- The answer is a failure if and only if the run cannot start, and it says why. -/
  failure_iff : ∀ failure, (∃ e, (r.run p).2 = .ended e ∧ e.result = .error failure) ↔
    p.Refused (r.active p.definition.id) failure
  /-- Then no handler is called and no slot is kept; all that is left of it is that a ticket has
  been given. -/
  untouched : ∀ failure, p.Refused (r.active p.definition.id) failure →
    r.run p =
      ({ r with tickets := r.tickets + 1 }, .ended ⟨r.tickets, .error failure, false⟩)
  /-- Otherwise the answer is a report, or the run waits on for an attempt that does not end. -/
  report : (∀ failure, ¬p.Refused (r.active p.definition.id) failure) →
    (∃ outcomes called, (r.run p).2 =
        .ended ⟨r.tickets, .ok ⟨p.definition.id, outcomes⟩, called⟩) ∨
      (r.run p).2 = .pending ∧ ¬p.Ends
  /-- Then the handler of each step is found when its turn comes, whatever the handlers do. -/
  handled : (∀ failure, ¬p.Refused (r.active p.definition.id) failure) →
    ∃ order jobs, p.definition.executionOrder = .ok order ∧ r.enter p = .ok jobs ∧
      ∀ (handler : String → Worker → Handler) (delay clock start : Nat),
        runSteps delay clock (fun name => (p.workers.lookup name).map (handler name)) order []
            start =
          (runJobs delay clock (jobs.map fun (s, worker) => (s, handler s.name worker)) []
            start).map .ok

variable {r : Runner} {p : Plan}

theorem awaitRun_of_find?_eq_none {ticket : Nat} (h : r.find? ticket = none) (wakes : Nat) :
    r.awaitRun ticket wakes = r := by
  cases wakes with
  | zero => rfl
  | succ wakes => simp only [awaitRun, h]

theorem turnsLeft_le_turns (r : Runner) :
    r.turnsLeft ≤ (r.live.map LiveRun.turns).foldl (· + ·) 0 := by
  rw [← List.sum_eq_foldl]
  exact List.sum_le_sum fun _ _ => Nat.sub_le _ _

section Reached
variable {delay : Nat} {events : List Event} (h : History delay events r)
include h

theorem refused_iff {failure : Failure} :
    p.Refused (r.active p.definition.id) failure ↔ r.enter p = .error failure := by
  rw [enter_eq_error_iff, slots_count_eq_active h]

theorem run_of_enter_error {failure : Failure} (henter : r.enter p = .error failure) :
    r.run p =
      ({ r with tickets := r.tickets + 1 }, .ended ⟨r.tickets, .error failure, false⟩) := by
  have hfind : (r.refuse failure).find? r.tickets = none := by
    refine List.find?_eq_none.mpr fun run live hticket => ?_
    exact Nat.ne_of_lt (ticket_lt_tickets h live) (beq_iff_eq.mp hticket)
  have hold : ∀ e ∈ r.ended, (e.ticket == r.tickets) = false := fun e he =>
    beq_false_of_ne (Nat.ne_of_lt (ended_of_history h e he).1)
  have hresult : (r.refuse failure).ended.find? (·.ticket == r.tickets) =
      some ⟨r.tickets, .error failure, false⟩ := by
    have hnone : r.ended.find? (·.ticket == r.tickets) = none :=
      List.find?_eq_none.mpr fun e he => by rw [hold e he]; exact Bool.false_ne_true
    rw [refuse, List.find?_append, hnone]
    simp
  have hkept : (r.refuse failure).ended.filter (·.ticket != r.tickets) = r.ended := by
    have hall : r.ended.filter (·.ticket != r.tickets) = r.ended :=
      List.filter_eq_self.mpr fun e he => by rw [bne, hold e he]; rfl
    rw [refuse, List.filter_append, hall]
    simp
  unfold run
  rw [start_eq_of_enter_error henter]
  dsimp only
  rw [awaitRun_of_find?_eq_none hfind, Runner.poll, hresult]
  dsimp only
  rw [hkept]
  rfl

theorem run_of_enter_ok {jobs : List (Step × Worker)} (hrest : r.AtRest)
    (henter : r.enter p = .ok jobs) :
    (∃ outcomes called, (r.run p).2 =
        .ended ⟨r.tickets, .ok ⟨p.definition.id, outcomes⟩, called⟩) ∨
      (r.run p).2 = .pending ∧ ¬p.Ends := by
  have haccepted := atRestBut_accept h henter hrest
  have hstarted := atRest_start h p hrest
  have honward := onward_carryOn r.tickets (r.accept p jobs)
  unfold run
  rw [start_eq_of_enter_ok henter] at hstarted ⊢
  dsimp only at hstarted ⊢
  generalize (r.accept p jobs).carryOn r.tickets = s at hstarted honward ⊢
  let new : LiveRun :=
    { ticket := r.tickets, workflow := p.definition.id, jobs, start := r.clock }
  have hnew : new ∈ (r.accept p jobs).live := List.mem_append_right _ (List.mem_singleton_self _)
  have hawaited := honward.trans (onward_awaitRun r.tickets
    ((s.live.map LiveRun.turns).foldl (· + ·) 0) s)
  have hpolled := hawaited.poll hnew haccepted.nodup fun e he =>
    Nat.ne_of_lt (ended_of_history h e he).1
  refine hpolled.imp_right fun ⟨hpending, hsome⟩ => ⟨hpending, fun hends => ?_⟩
  -- All attempts end, so the run is over and cannot be live.
  have hended : ∀ run ∈ s.live, run.ticket = r.tickets → run.Ends := by
    intro run live hticket job hjob
    obtain ⟨first, hfirst, hsame, -, hjobs⟩ := honward.live run live
    have heq : first = new :=
      List.inj_on_of_nodup_map haccepted.nodup hfirst hnew (hsame.symm.trans hticket)
    rw [hjobs, heq] at hjob
    exact hends.jobs (enter_eq_ok henter).1 job hjob
  have hnone := find?_awaitRun hstarted hended (turnsLeft_le_turns s)
  have hlive : ((s.awaitRun r.tickets _).find? r.tickets).isSome := hsome
  rw [hnone] at hlive
  cases hlive

theorem answers (hrest : r.AtRest) (p : Plan) : r.Answers p := by
  have hrun : (∀ failure, ¬p.Refused (r.active p.definition.id) failure) →
      ∃ jobs, r.enter p = .ok jobs := fun hnone => by
    cases henter : r.enter p with
    | error failure => exact absurd ((refused_iff h).mpr henter) (hnone failure)
    | ok jobs => exact ⟨jobs, rfl⟩
  refine ⟨fun failure => ⟨?_, fun hrefused => ?_⟩, fun failure hrefused => ?_, fun hnone => ?_,
    fun hnone => ?_⟩
  · rintro ⟨e, hended, hresult⟩
    rw [refused_iff h]
    cases henter : r.enter p with
    | error failure' =>
      rw [run_of_enter_error h henter] at hended
      cases hended
      cases hresult
      rfl
    | ok jobs =>
      rcases run_of_enter_ok h hrest henter with ⟨outcomes, called, hreport⟩ | ⟨hpending, -⟩
      · rw [hreport] at hended
        cases hended
        cases hresult
      · rw [hpending] at hended
        cases hended
  · exact ⟨_, congrArg Prod.snd (run_of_enter_error h ((refused_iff h).mp hrefused)), rfl⟩
  · exact run_of_enter_error h ((refused_iff h).mp hrefused)
  · obtain ⟨jobs, henter⟩ := hrun hnone
    exact run_of_enter_ok h hrest henter
  · obtain ⟨jobs, henter⟩ := hrun hnone
    obtain ⟨order, horder, hassign⟩ := Plan.jobs_eq_ok (enter_eq_ok henter).1
    refine ⟨order, jobs, horder, henter, fun handler delay clock start => ?_⟩
    exact runSteps_eq (assign_map handler hassign) delay clock [] start

end Reached

/-- Whatever a runner was asked for before, it answers with a failure exactly when a run cannot
start, and with a report otherwise. No run that has called a handler ends in a failure, and a run
whose attempts all end is brought to its report by time alone. -/
theorem fails_iff_refused (delay : Nat) (ops : List Operation) :
    (∀ p, (reached delay ops).Answers p) ∧
    (∀ e ∈ (reached delay ops).ended, e.called = true → ∃ report, e.result = .ok report) ∧
    ∀ run ∈ (reached delay ops).live, run.Ends → ∃ wakes outcomes called,
      (((reached delay ops).awaitRun run.ticket wakes).poll run.ticket).2 =
        .ended ⟨run.ticket, .ok ⟨run.workflow, outcomes⟩, called⟩ := by
  obtain ⟨⟨events, hhistory⟩, hrest⟩ := reached_spec delay ops
  refine ⟨answers hhistory hrest, fun e he hcalled => ?_, fun run live hends => ?_⟩
  · rcases (ended_of_history hhistory e he).2 with hreport | ⟨-, -, hnot, -⟩
    · exact hreport
    · rw [hcalled] at hnot
      cases hnot
  · have hended : ∀ other ∈ (reached delay ops).live, other.ticket = run.ticket → other.Ends :=
      fun other hother hticket => by
        rw [List.inj_on_of_nodup_map hrest.nodup hother live hticket]
        exact hends
    have hnone := find?_awaitRun hrest hended (Nat.le_refl _)
    have hpolled := (onward_awaitRun run.ticket (reached delay ops).turnsLeft _).poll live
      hrest.nodup (ticket_ne_of_live hhistory live)
    obtain ⟨outcomes, called, hreport⟩ := hpolled.resolve_right fun hpending => by
      rw [hnone] at hpending
      cases hpending.2
    exact ⟨_, outcomes, called, hreport⟩

theorem not_refused_of_enter_ok {delay : Nat} {ops : List Operation} {jobs : List (Step × Worker)}
    {p : Plan} (henter : (reached delay ops).enter p = .ok jobs) (failure : Failure) :
    ¬p.Refused ((reached delay ops).active p.definition.id) failure := by
  obtain ⟨⟨events, hhistory⟩, -⟩ := reached_spec delay ops
  rw [refused_iff hhistory, henter]
  exact fun h => by cases h

/-- While the only run that its workflow may have waits at a gate, another is refused; a plan of
another workflow is run to its report. -/
theorem fails_iff_refused_gated :
    ((reached 0 [.start gatedPlan]).run gatedPlan).2 =
        .ended ⟨1, .error (.tooManyActiveRuns "install" 1), false⟩ ∧
      ∃ outcomes called, ((reached 0 [.start gatedPlan]).run chainedPlan).2 =
        .ended ⟨1, .ok ⟨"sync", outcomes⟩, called⟩ := by
  constructor
  · have hrefused : gatedPlan.Refused ((reached 0 [.start gatedPlan]).active "install")
        (.tooManyActiveRuns "install" 1) :=
      .full rfl (List.forall_mem_singleton.mpr rfl) (by decide)
    exact congrArg Prod.snd
      (((fails_iff_refused 0 [.start gatedPlan]).1 gatedPlan).untouched _ hrefused)
  · have hends : chainedPlan.Ends := by
      intro s hs worker hfound number
      have hname : s.name ∈ ["report", "load", "fetch", "clean"] := List.mem_map_of_mem hs
      simp only [List.mem_cons, List.not_mem_nil, or_false] at hname
      rcases hname with hname | hname | hname | hname <;> rw [hname] at hfound <;> cases hfound <;>
        exact Or.inr ⟨rfl, rfl⟩
    have hreport := ((fails_iff_refused 0 [.start gatedPlan]).1 chainedPlan).report
      (not_refused_of_enter_ok rfl)
    exact hreport.resolve_right fun hpending => hpending.2 hends

end Runner

end MediaCatalog.Workflow
