import MediaCatalog.Proofs.Workflow.Answer

/-!
# Alone — what a plan comes to in a runner that has nothing else to do

The calls that a run has made by a time are the first of those that it has made later
(`Course.calls_isPrefix`). So a runner with one run only notes, from wake to wake, the calls of that
run (`Runner.Alone`), and a plan whose attempts all end leaves its report and all its calls
(`Runner.run_alone`).
-/

namespace MediaCatalog.Workflow

/-! ## 1. Calls are only added -/

namespace Step
variable {s : Step} {handler : Handler} {delay began clock time left number start moments : Nat}
  {p : Progress Outcome}

theorem singleton_isPrefix_attempt (hstart : start ≤ time) :
    [⟨s.name, number, start⟩] <+:
      (s.attempt handler delay began time (left + 1) number start).calls := by
  obtain ⟨moments, p, hcourse⟩ := exists_course s handler delay began time left number start
  rw [hcourse.eq.1]
  cases hcourse with
  | early before => omega
  | endless | going | succeeded | failed => exact List.prefix_rfl
  | retried => exact List.prefix_append _ _

theorem Course.calls_isPrefix (h : s.Course handler delay began clock left number start moments p)
    (hle : clock ≤ time) :
    p.calls <+: (s.attempt handler delay began time left number start).calls := by
  induction h with
  | early => exact List.nil_prefix
  | endless started | going started => exact singleton_isPrefix_attempt (Nat.le_trans started hle)
  | succeeded ended ending | failed ended ending =>
    have hstart := Nat.le_trans (le_of_ending? ending) ended
    exact singleton_isPrefix_attempt (Nat.le_trans hstart hle)
  | retried ended ending _ ih =>
    rw [attempt_of_error ending (Nat.le_trans ended hle)]
    exact (List.prefix_append_right_inj _).mpr ih

end Step

section Jobs
variable {delay clock time start moments : Nat} {jobs : List (Step × Handler)}
  {done : List Outcome} {p : Progress (List Outcome)}

theorem run_isPrefix_runJobs {s : Step} {handler : Handler} (hfree : s.blockedBy? done = none) :
    (s.run handler delay clock start).calls <+:
      (runJobs delay clock ((s, handler) :: jobs) done start).calls := by
  rw [runJobs, hfree]
  dsimp only
  generalize s.run handler delay clock start = p
  obtain ⟨calls, standing⟩ := p
  cases standing with
  | finished o finish => exact List.prefix_append _ _
  | busy wake => exact List.prefix_rfl

/-- The calls of a run by a time are the first of its calls by a later time. -/
theorem Course.calls_isPrefix (h : Course delay clock jobs done start moments p)
    (hle : clock ≤ time) : p.calls <+: (runJobs delay time jobs done start).calls := by
  induction h with
  | nil => exact List.nil_prefix
  | blocked hblocked _ ih =>
    rw [runJobs_of_blocked hblocked]
    exact ih
  | busy hfree now => exact (now.calls_isPrefix hle).trans (run_isPrefix_runJobs hfree)
  | next hfree now _ ih =>
    have hnow := now.later hle fun wake h => by cases h
    rw [runJobs_of_finished hfree hnow.eq.1]
    exact (List.prefix_append_right_inj _).mpr ih

end Jobs

theorem LiveRun.calls_isPrefix (delay : Nat) {clock time : Nat} (run : LiveRun)
    (hle : clock ≤ time) :
    (run.progress delay clock).calls <+: (run.progress delay time).calls :=
  (run.course delay clock).calls_isPrefix hle

/-! ## 2. A runner with one run -/

/-- The first run of a runner, when it has made these calls. -/
def Plan.firstRun (p : Plan) (jobs : List (Step × Worker)) (calls : List Call) : LiveRun :=
  { ticket := 0, workflow := p.definition.id, jobs, start := 0, calls }

namespace Runner

/-- A runner that has been given nothing but one plan, as it stands at a time: its log shows the
calls that are noted of the run. Nobody has given permits, so no attempt comes through a gate. -/
inductive Alone (p : Plan) (delay clock : Nat) : Runner → Prop where
  | live {r : Runner} {jobs : List (Step × Worker)} {calls : List Call} (interval : r.delay = delay)
      (permits : r.permits = []) (started : p.jobs = .ok jobs)
      (live : r.live = [p.firstRun jobs calls]) (ended : r.ended = [])
      (noted : ∀ time, clock ≤ time →
        calls <+: ((p.firstRun jobs calls).progress delay time).calls)
      (log : r.log = calls.map (⟨p.definition.id, ·⟩)) : Alone p delay clock r
  | finished {r : Runner} {calls : List Call} {outcomes : List Outcome} (live : r.live = [])
      (ran : p.definition.Ran (p.handlers []) delay 0 calls ⟨p.definition.id, outcomes⟩)
      (ended : r.ended = [⟨0, .ok ⟨p.definition.id, outcomes⟩, !calls.isEmpty⟩])
      (log : r.log = calls.map (⟨p.definition.id, ·⟩)) : Alone p delay clock r

variable {p : Plan} {delay clock : Nat} {r : Runner} {jobs : List (Step × Worker)}
  {calls : List Call}

namespace Alone

theorem with_clock (h : Alone p delay clock r) (now : Nat) :
    Alone p delay clock { r with clock := now } := by
  cases h with
  | live interval permits started live ended noted log =>
    exact .live interval permits started live ended noted log
  | finished live ran ended log => exact .finished live ran ended log

theorem later (h : Alone p delay clock r) {time : Nat} (hle : clock ≤ time) :
    Alone p delay time r := by
  cases h with
  | live interval permits started live ended noted log =>
    refine .live interval permits started live ended (fun time' hle' => ?_) log
    exact noted time' (Nat.le_trans hle hle')
  | finished live ran ended log => exact .finished live ran ended log

end Alone

/-- Without permits a run is carried on in one go. -/
theorem drive_of_permits_eq_nil (h : r.permits = []) (fuel : Nat) (run : LiveRun) :
    drive (fuel + 1) run r =
      (r.note run (run.progress r.delay r.clock).calls).leave run
        (run.progress r.delay r.clock) := by
  have harrival : run.arrival? r.permits (run.progress r.delay r.clock).calls = none := by
    refine Option.eq_none_iff_forall_ne_some.mpr fun arrival harrival => ?_
    obtain ⟨hcount, -⟩ := LiveRun.arrival?_eq_some harrival
    rw [h] at hcount
    exact hcount rfl
  rw [drive]
  dsimp only
  rw [harrival]

theorem log_note (jobs : List (Step × Worker))
    (hlog : r.log = calls.map (⟨p.definition.id, ·⟩)) {all : List Call} (hfirst : calls <+: all) :
    (r.note (p.firstRun jobs calls) all).log = all.map (⟨p.definition.id, ·⟩) := by
  obtain ⟨later, rfl⟩ := hfirst
  have hlater : (calls ++ later).drop (p.firstRun jobs calls).calls.length = later :=
    List.drop_left
  rw [note, hlater, hlog, List.map_append]
  rfl

/-- The run goes on: all its calls by now are noted, and its report if it has ended. -/
theorem alone_drive (fuel : Nat) (permits : r.permits = []) (started : p.jobs = .ok jobs)
    (live : r.live = [p.firstRun jobs calls]) (ended : r.ended = [])
    (noted : ∀ time, r.clock ≤ time →
      calls <+: ((p.firstRun jobs calls).progress r.delay time).calls)
    (log : r.log = calls.map (⟨p.definition.id, ·⟩)) :
    Alone p r.delay r.clock (drive (fuel + 1) (p.firstRun jobs calls) r) := by
  rw [drive_of_permits_eq_nil permits]
  have hlog := log_note jobs log (noted r.clock (Nat.le_refl _))
  have hlater := fun time (hle : r.clock ≤ time) =>
    (p.firstRun jobs calls).calls_isPrefix r.delay hle
  generalize hprogress : (p.firstRun jobs calls).progress r.delay r.clock = progress at hlog hlater
  obtain ⟨all, standing⟩ := progress
  cases standing with
  | finished outcomes finish =>
    have hlive : r.live.filter (·.ticket != 0) = [] := by
      rw [live]
      rfl
    have hended : r.ended ++ [⟨0, .ok ⟨p.definition.id, outcomes⟩, !all.isEmpty⟩] =
        [⟨0, .ok ⟨p.definition.id, outcomes⟩, !all.isEmpty⟩] := by
      rw [ended]
      rfl
    exact .finished hlive (LiveRun.ran started rfl hprogress) hended hlog
  | busy wake =>
    have hlive : (r.replace (p.firstRun jobs all)).live = [p.firstRun jobs all] := by
      rw [replace, live]
      rfl
    unfold leave
    dsimp only
    split <;> exact .live rfl permits started hlive ended hlater hlog

namespace Alone

theorem carryOn (h : Alone p delay clock r) (hclock : r.clock = clock) :
    Alone p delay clock (r.carryOn 0) := by
  subst hclock
  unfold Runner.carryOn
  cases h with
  | finished live ran ended log =>
    rw [find?, live]
    exact .finished live ran ended log
  | @live jobs calls interval permits started live ended noted log =>
    subst interval
    have hfind : r.find? 0 = some (p.firstRun jobs calls) := by
      rw [find?, live]
      rfl
    rw [hfind]
    exact alone_drive (r := { r with queue := r.queue.filter (·.1 != 0) }) _ permits started live
      ended noted log

theorem wakeAt {time : Nat} (h : Alone p delay clock r) (hle : clock ≤ time)
    (hnext : r.nextWake? = some time) : Alone p delay time (r.wakeAt time) := by
  obtain ⟨⟨run, hrun, hwake⟩, -⟩ := nextWake?_eq_some hnext
  have hlater : Alone p delay time { r with clock := time } := (h.later hle).with_clock time
  cases h with
  | finished live => rw [live] at hrun; cases hrun
  | @live jobs calls _ _ _ live =>
    rw [live, List.mem_singleton] at hrun
    subst hrun
    have hdue : r.due time = [p.firstRun jobs calls] := by
      rw [due, live]
      refine List.filter_eq_self.mpr (List.forall_mem_singleton.mpr ?_)
      rw [hwake]
      exact decide_eq_true (Nat.le_refl time)
    have hwakeAt : r.wakeAt time =
        { { r with clock := time }.carryOn 0 with clock := time } := by
      show { (r.due time).foldl (fun r run => r.carryOn run.ticket) { r with clock := time } with
        clock := time } = _
      rw [hdue]
      rfl
    rw [hwakeAt]
    exact (hlater.carryOn rfl).with_clock time

theorem awaitRun (wakes : Nat) (hrest : r.AtRest) (h : Alone p delay r.clock r) :
    Alone p delay (r.awaitRun 0 wakes).clock (r.awaitRun 0 wakes) := by
  induction wakes generalizing r with
  | zero => exact h
  | succ wakes ih =>
    rw [Runner.awaitRun]
    split
    next time _ hnext =>
      have hle := Nat.le_of_lt (clock_lt_of_nextWake? hrest hnext)
      exact ih (atRest_wakeAt hrest hnext) (h.wakeAt hle hnext)
    next => exact h

theorem ends (h : Alone p delay clock r) (hends : p.Ends) : ∀ run ∈ r.live, run.Ends := by
  cases h with
  | finished live => simp [live]
  | live _ _ started live =>
    rw [live]
    exact List.forall_mem_singleton.mpr (hends.jobs started)

end Alone

/-- A plan that is let in and whose attempts all end leaves its report and its calls. -/
theorem run_alone {p : Plan} {jobs : List (Step × Worker)} (hjobs : p.jobs = .ok jobs)
    (hactive : 0 < p.definition.maxActiveRuns.toNat) (hends : p.Ends) (delay : Nat) :
    ∃ calls outcomes,
      p.definition.Ran (p.handlers []) delay 0 calls ⟨p.definition.id, outcomes⟩ ∧
      (Runner.run p { delay }).2 =
        .ended ⟨0, .ok ⟨p.definition.id, outcomes⟩, !calls.isEmpty⟩ ∧
      (Runner.run p { delay }).1.log = calls.map (⟨p.definition.id, ·⟩) := by
  have henter : enter p { delay } = .ok jobs := by
    rw [enter_of_jobs_ok hjobs]
    exact if_neg (Nat.not_le.mpr hactive)
  have hrest : AtRest { delay } := (reached_spec delay []).2
  have hstarted := atRest_start (.refl _) p hrest
  unfold run
  rw [start_eq_of_enter_ok henter] at hstarted ⊢
  dsimp only at hstarted ⊢
  have haccepted : Alone p delay 0 (accept p jobs { delay }) :=
    .live rfl rfl hjobs rfl rfl (fun _ _ => List.nil_prefix) rfl
  -- The first turn is taken at once, the others as the run wakes.
  have hcarried : Alone p delay _ ((accept p jobs { delay }).carryOn 0) := haccepted.carryOn rfl
  generalize (accept p jobs { delay }).carryOn 0 = s at hstarted hcarried ⊢
  have hnone : (s.awaitRun 0 ((s.live.map LiveRun.turns).foldl (· + ·) 0)).find? 0 = none :=
    find?_awaitRun hstarted (fun run live _ => hcarried.ends hends run live) (turnsLeft_le_turns s)
  have hawaited := Alone.awaitRun ((s.live.map LiveRun.turns).foldl (· + ·) 0) hstarted
    (hcarried.later (Nat.zero_le s.clock))
  generalize s.awaitRun 0 ((s.live.map LiveRun.turns).foldl (· + ·) 0) = last at hnone hawaited ⊢
  cases hawaited with
  | live _ _ _ live =>
    -- Enough wakes have passed for a run whose attempts all end.
    rw [find?, live] at hnone
    cases hnone
  | @finished calls outcomes _ ran ended log =>
    refine ⟨calls, outcomes, ran, ?_, ?_⟩
    · unfold poll
      rw [ended]
      rfl
    · unfold poll
      rw [ended]
      exact log

end Runner

end MediaCatalog.Workflow
