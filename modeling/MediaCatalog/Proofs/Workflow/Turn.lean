import MediaCatalog.Proofs.Workflow.Trials

/-!
# Turns — a run takes its steps one after the other

`runJobs` threads the outcomes and the time through its recursion. `Turns` is the same run as a
derivation, with one turn for each job: what is there when the turn comes, what it does and when it
is over.
-/

namespace MediaCatalog.Workflow

/-! ## 1. The attempts of one step -/

namespace Step

/-- What the attempts of a step, from one with a number and a time on, leave when they are over. -/
structure Attempted (s : Step) (began number start : Nat) (calls : List Call) (o : Outcome)
    (finish : Nat) : Prop where
  step : o.step = s.name
  status : o.status ≠ .blocked
  startedAt : o.startedAt = some began
  finishedAt : o.finishedAt = some finish
  le : start ≤ finish
  head : calls.head? = some ⟨s.name, number, start⟩
  own : ∀ call ∈ calls, call.step = s.name
  numbers : calls.map Call.attempt = List.range' number calls.length
  attempts : o.attempts + 1 = number + calls.length

theorem Trials.attempted {s : Step} {handler : Handler} {delay left number start : Nat}
    {before : List Trial} {last : Trial}
    (h : s.Trials handler delay left number start before last) (began : Nat) :
    s.Attempted began number start ((before ++ [last]).map (Trial.call s.name))
      (last.outcome s.name began) last.finish where
  step := last.step_outcome s.name began
  status := last.status_outcome s.name began
  startedAt := last.startedAt_outcome s.name began
  finishedAt := last.finishedAt_outcome s.name began
  le := h.le_finish
  head := by cases h <;> rfl
  own := List.forall_mem_map.mpr fun _ _ => rfl
  numbers := by
    rw [List.map_map, List.length_map, List.length_append, List.length_singleton]
    exact h.numbers
  attempts := by
    rw [Trial.attempts_outcome, h.number_last, List.length_map, List.length_append,
      List.length_singleton, Nat.add_assoc]

theorem Attempted.exists_calls {s : Step} {began number start finish : Nat} {calls : List Call}
    {o : Outcome} (h : s.Attempted began number start calls o finish) :
    ∃ rest, calls = ⟨s.name, number, start⟩ :: rest := by
  have hhead := h.head
  cases calls with
  | nil => cases hhead
  | cons call rest =>
    rw [List.head?_cons, Option.some.injEq] at hhead
    exact ⟨rest, by rw [hhead]⟩

/-- If the first attempt has the number one, as many are recorded as there are calls. -/
theorem Attempted.attempts_eq {s : Step} {began start finish : Nat} {calls : List Call}
    {o : Outcome} (h : s.Attempted began 1 start calls o finish) : o.attempts = calls.length := by
  have hattempts := h.attempts
  omega

theorem attempted_of_run {s : Step} {handler : Handler} {delay clock start : Nat}
    {calls : List Call} {o : Outcome} {finish : Nat}
    (h : s.run handler delay clock start = ⟨calls, .finished o finish⟩) :
    s.Attempted start 1 start calls o finish := by
  obtain ⟨before, last, htrials, rfl, rfl, rfl⟩ := trials_of_run h
  exact htrials.attempted start

end Step

/-- Some outcome says that the step of a name succeeded. -/
def Succeeds (outcomes : List Outcome) (name : String) : Prop :=
  ∃ o ∈ outcomes, o.step = name ∧ o.status = .succeeded

theorem any_iff_succeeds {outcomes : List Outcome} {name : String} :
    (outcomes.any fun o => o.step == name && o.isSuccess) = true ↔ Succeeds outcomes name := by
  simp [Succeeds, Outcome.isSuccess]

namespace Step

theorem blockedBy?_eq_none_iff {s : Step} {done : List Outcome} :
    s.blockedBy? done = none ↔ ∀ a ∈ s.dependencies, Succeeds done a := by
  rw [blockedBy?, List.find?_eq_none]
  refine forall₂_congr fun a _ => ?_
  rw [← any_iff_succeeds, Bool.not_eq_true', Bool.not_eq_false]

theorem blockedBy?_eq_some_iff {s : Step} {done : List Outcome} {a : String} :
    s.blockedBy? done = some a ↔ ∃ front back, s.dependencies = front ++ a :: back ∧
      (∀ b ∈ front, Succeeds done b) ∧ ¬Succeeds done a := by
  rw [blockedBy?, List.find?_eq_some_iff_append]
  simp only [Bool.not_not, ← any_iff_succeeds, Bool.not_eq_true', Bool.not_eq_true]
  constructor
  · rintro ⟨ha, front, back, hsplit, hfront⟩
    exact ⟨front, back, hsplit, hfront, ha⟩
  · rintro ⟨front, back, hsplit, hfront, ha⟩
    exact ⟨ha, front, back, hsplit, hfront⟩

end Step

/-! ## 2. A run as its turns -/

section RunJobs
variable {delay clock start finish : Nat} {s : Step} {handler : Handler}
  {jobs : List (Step × Handler)} {done : List Outcome}

theorem runJobs_of_blocked {a : String} (h : s.blockedBy? done = some a) :
    runJobs delay clock ((s, handler) :: jobs) done start =
      runJobs delay clock jobs (done ++ [.blocked s.name a]) start := by
  rw [runJobs, h]

theorem runJobs_of_finished {calls : List Call} {o : Outcome} (hfree : s.blockedBy? done = none)
    (hran : s.run handler delay clock start = ⟨calls, .finished o finish⟩) :
    runJobs delay clock ((s, handler) :: jobs) done start =
      (runJobs delay clock jobs (done ++ [o]) finish).after calls := by
  simp only [runJobs, hfree, hran]

end RunJobs

/-- Jobs that are done at some time, and stay so. -/
def JobsEnd (delay : Nat) (jobs : List (Step × Handler)) (done : List Outcome) (start : Nat) :
    Prop :=
  ∃ calls outcomes finish, start ≤ finish ∧ ∀ clock, finish ≤ clock →
    runJobs delay clock jobs done start = ⟨calls, .finished outcomes finish⟩

namespace JobsEnd
variable {delay start : Nat} {s : Step} {handler : Handler} {jobs : List (Step × Handler)}
  {done : List Outcome}

theorem nil : JobsEnd delay [] done start :=
  ⟨[], done, start, le_rfl, fun _ _ => rfl⟩

theorem of_blocked {dependency : String} (hblocked : s.blockedBy? done = some dependency)
    (h : JobsEnd delay jobs (done ++ [.blocked s.name dependency]) start) :
    JobsEnd delay ((s, handler) :: jobs) done start := by
  obtain ⟨calls, outcomes, finish, hle, hrun⟩ := h
  exact ⟨calls, outcomes, finish, hle, fun clock hclock =>
    (runJobs_of_blocked hblocked).trans (hrun clock hclock)⟩

theorem of_trials {before : List Trial} {last : Trial} (hfree : s.blockedBy? done = none)
    (htrials : s.Trials handler delay s.maxAttempts 1 start before last)
    (h : JobsEnd delay jobs (done ++ [last.outcome s.name start]) last.finish) :
    JobsEnd delay ((s, handler) :: jobs) done start := by
  obtain ⟨calls, outcomes, finish, hle, hrun⟩ := h
  refine ⟨(before ++ [last]).map (Trial.call s.name) ++ calls, outcomes, finish,
    htrials.le_finish.trans hle, fun clock hclock => ?_⟩
  rw [runJobs_of_finished hfree (htrials.run_eq (hle.trans hclock)), hrun clock hclock,
    Progress.after]

end JobsEnd

/-- One step of a run with its handler: from when to when, the calls made and what came of it. -/
structure Turn where
  step : Step
  handler : Handler
  start : Nat
  finish : Nat
  calls : List Call
  outcome : Outcome

/-- How a turn goes when so many outcomes are there: it is passed over at once, or its step runs. -/
inductive Turn.Taken (delay clock : Nat) (done : List Outcome) : Turn → Prop where
  | skipped {s : Step} {handler : Handler} {start : Nat} {dependency : String}
      (blocked : s.blockedBy? done = some dependency) :
      Taken delay clock done ⟨s, handler, start, start, [], .blocked s.name dependency⟩
  | started {s : Step} {handler : Handler} {start finish : Nat} {calls : List Call} {o : Outcome}
      (free : s.blockedBy? done = none)
      (ran : s.run handler delay clock start = ⟨calls, .finished o finish⟩) :
      Taken delay clock done ⟨s, handler, start, finish, calls, o⟩

/-- Turns one after the other, from one time to another. -/
inductive Turns (delay clock : Nat) : (done : List Outcome) → (start : Nat) → List Turn →
    (finish : Nat) → Prop where
  | nil {done : List Outcome} {start : Nat} : Turns delay clock done start [] start
  | cons {done : List Outcome} {t : Turn} {turns : List Turn} {finish : Nat}
      (taken : t.Taken delay clock done)
      (rest : Turns delay clock (done ++ [t.outcome]) t.finish turns finish) :
      Turns delay clock done t.start (t :: turns) finish

/-- Jobs that have been done are turns, with all their outcomes and calls in this order. -/
theorem turns_of_runJobs {delay clock start finish : Nat} {jobs : List (Step × Handler)}
    {done outcomes : List Outcome} {calls : List Call}
    (h : runJobs delay clock jobs done start = ⟨calls, .finished outcomes finish⟩) :
    ∃ turns, Turns delay clock done start turns finish ∧
      turns.map (fun t => (t.step, t.handler)) = jobs ∧
      outcomes = done ++ turns.map Turn.outcome ∧ calls = turns.flatMap Turn.calls := by
  induction jobs generalizing done start calls with
  | nil =>
    rw [runJobs, Progress.mk.injEq, Standing.finished.injEq] at h
    obtain ⟨rfl, rfl, rfl⟩ := h
    exact ⟨[], .nil, rfl, by simp, rfl⟩
  | cons job jobs ih =>
    obtain ⟨s, handler⟩ := job
    rw [runJobs] at h
    cases hblocked : s.blockedBy? done with
    | some dependency =>
      rw [hblocked] at h
      obtain ⟨turns, hturns, hjobs, houtcomes, hcalls⟩ := ih h
      refine ⟨_ :: turns, .cons (.skipped hblocked) hturns, by rw [List.map_cons, hjobs], ?_, ?_⟩
      · rw [houtcomes, List.map_cons, List.append_assoc, List.singleton_append]
      · rw [hcalls, List.flatMap_cons, List.nil_append]
    | none =>
      simp only [hblocked] at h
      -- A run that has ended has not stopped at a step that is still busy.
      split at h
      next first o _ hran =>
        obtain ⟨later, hrest, rfl⟩ := Progress.after_eq h
        obtain ⟨turns, hturns, hjobs, houtcomes, hcalls⟩ := ih hrest
        refine ⟨_ :: turns, .cons (.started hblocked hran) hturns, by rw [List.map_cons, hjobs],
          ?_, ?_⟩
        · rw [houtcomes, List.map_cons, List.append_assoc, List.singleton_append]
        · rw [hcalls, List.flatMap_cons]
      next => cases h

namespace Turn.Taken
variable {delay clock : Nat} {done : List Outcome} {t : Turn}

theorem outcome_step (h : t.Taken delay clock done) : t.outcome.step = t.step.name := by
  cases h with
  | skipped => rfl
  | started _ ran => exact (Step.attempted_of_run ran).step

theorem own (h : t.Taken delay clock done) : ∀ call ∈ t.calls, call.step = t.step.name := by
  cases h with
  | skipped => simp
  | started _ ran => exact (Step.attempted_of_run ran).own

theorem le (h : t.Taken delay clock done) : t.start ≤ t.finish := by
  cases h with
  | skipped => exact Nat.le_refl _
  | started _ ran => exact (Step.attempted_of_run ran).le

theorem numbers (h : t.Taken delay clock done) :
    t.calls.map Call.attempt = List.range' 1 t.outcome.attempts := by
  cases h with
  | skipped => rfl
  | @started _ _ _ _ calls o _ ran =>
    have hattempted := Step.attempted_of_run ran
    rw [hattempted.attempts_eq]
    exact hattempted.numbers

/-- A step that was passed over leaves no time behind; one that ran ended with its turn. -/
theorem finishedAt (h : t.Taken delay clock done) {time : Nat}
    (htime : t.outcome.finishedAt = some time) : time = t.finish := by
  cases h with
  | skipped => cases htime
  | started _ ran =>
    rw [(Step.attempted_of_run ran).finishedAt, Option.some.injEq] at htime
    exact htime.symm

theorem free_of_status_ne (h : t.Taken delay clock done) (hstatus : t.outcome.status ≠ .blocked) :
    t.step.blockedBy? done = none ∧
      t.step.Attempted t.start 1 t.start t.calls t.outcome t.finish := by
  cases h with
  | skipped => exact absurd rfl hstatus
  | started free ran => exact ⟨free, Step.attempted_of_run ran⟩

theorem run_of_status_ne (h : t.Taken delay clock done) (hstatus : t.outcome.status ≠ .blocked) :
    t.step.run t.handler delay clock t.start = ⟨t.calls, .finished t.outcome t.finish⟩ := by
  cases h with
  | skipped => exact absurd rfl hstatus
  | started _ ran => exact ran

theorem skipped_of_status_eq (h : t.Taken delay clock done)
    (hstatus : t.outcome.status = .blocked) :
    ∃ dependency, t.step.blockedBy? done = some dependency ∧ t.calls = [] ∧
      t.outcome = .blocked t.step.name dependency := by
  cases h with
  | skipped blocked => exact ⟨_, blocked, rfl, rfl⟩
  | started _ ran => exact absurd hstatus (Step.attempted_of_run ran).status

end Turn.Taken

namespace Turns
variable {delay clock start finish : Nat} {done : List Outcome}

theorem taken {before after : List Turn} {t : Turn}
    (h : Turns delay clock done start (before ++ t :: after) finish) :
    Turns delay clock done start before t.start ∧
      t.Taken delay clock (done ++ before.map Turn.outcome) := by
  induction before generalizing done start with
  | nil =>
    cases h with
    | cons taken => exact ⟨.nil, by simpa using taken⟩
  | cons u before ih =>
    cases h with
    | cons taken rest =>
      obtain ⟨hbefore, ht⟩ := ih rest
      refine ⟨.cons taken hbefore, ?_⟩
      rw [List.append_assoc, List.singleton_append] at ht
      exact ht

theorem le {turns : List Turn} (h : Turns delay clock done start turns finish) :
    start ≤ finish := by
  induction h with
  | nil => exact Nat.le_refl _
  | cons taken _ ih => exact Nat.le_trans taken.le ih

/-- All turns are over at the end. -/
theorem finish_le {turns : List Turn} (h : Turns delay clock done start turns finish) :
    ∀ t ∈ turns, t.finish ≤ finish := by
  induction h with
  | nil => simp
  | cons _ rest ih => exact List.forall_mem_cons.mpr ⟨rest.le, ih⟩

end Turns

end MediaCatalog.Workflow
