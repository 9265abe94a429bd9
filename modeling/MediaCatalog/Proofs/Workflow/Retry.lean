import MediaCatalog.Proofs.Workflow.Clock
import MediaCatalog.Proofs.Workflow.Independence

/-!
# Retry — what is recorded of a step follows from what its attempts answer

Attempts are numbered from one. If they answer by their numbers (`Step.ComesTo`), the first success
decides, or else the last attempt that the step may have (`Step.Recorded`). Numbers stay words of 32
bits, since the last attempt has the largest of them at most.
-/

namespace MediaCatalog.Workflow

theorem isTimeout_iff {failure : Failure} :
    failure.isTimeout = true ↔ ∃ step limit, failure = .stepTimeout step limit := by
  cases failure <;> simp [Failure.isTimeout]

namespace Step

/-- Attempts that the step comes to all end, each with the answer of its number. -/
def ComesTo (s : Step) (handler : Handler) (delay start : Nat)
    (answers : Nat → Except Failure Json) : Prop :=
  ∀ ahead time, ahead < s.maxAttempts → s.begins? handler delay ahead 1 start = some time →
    ∃ finish, s.ending? time (handler time (1 + ahead)) = some (finish, answers (1 + ahead))

/-- The calls and the outcome of a step are those of attempts that answer by their numbers. -/
structure Recorded (s : Step) (answers : Nat → Except Failure Json) (calls : List Call)
    (o : Outcome) : Prop where
  own : ∀ call ∈ calls, call.step = s.name
  numbers : calls.map Call.attempt = List.range' 1 o.attempts
  /-- The first success is the last attempt. -/
  succeeded : ∀ k output, 1 ≤ k → k ≤ s.maxAttempts → answers k = .ok output →
    (∀ i, 1 ≤ i → i < k → ∃ failure, answers i = .error failure) →
    o.attempts = k ∧ o.status = .succeeded ∧ o.output = some output ∧ o.error = none
  /-- Without a success all attempts are made, and the failure of the last one is told. -/
  failed : (∀ i, 1 ≤ i → i ≤ s.maxAttempts → ∃ failure, answers i = .error failure) →
    o.attempts = s.maxAttempts ∧ o.output = none ∧
      ∃ failure, answers s.maxAttempts = .error failure ∧ o.error = some failure.message ∧
        (o.status = .timedOut ↔ ∃ step limit, failure = .stepTimeout step limit) ∧
        (o.status = .failed ↔ ¬∃ step limit, failure = .stepTimeout step limit)

variable {s : Step} {handler : Handler} {delay clock start finish : Nat} {before : List Trial}
  {last : Trial} {answers : Nat → Except Failure Json} {calls : List Call} {o : Outcome}

/-! ## 1. Attempts that answer by their numbers -/

theorem maxAttempts_lt (s : Step) : s.maxAttempts < UInt32.size :=
  Nat.lt_of_le_of_lt (Nat.min_le_right _ _) (by decide)

namespace Trials

theorem answer_eq (h : s.Trials handler delay s.maxAttempts 1 start before last)
    (hanswers : s.ComesTo handler delay start answers) :
    ∀ t ∈ before ++ [last], t.answer = answers t.number := by
  intro t ht
  obtain ⟨ahead, hahead, hnumber, hbegins⟩ := h.begins?_of_mem t ht
  obtain ⟨finish, hending⟩ := hanswers ahead t.start hahead hbegins
  rw [← hnumber, h.ending_of_mem t ht, Option.some.injEq, Prod.mk.injEq] at hending
  exact hending.2

/-- Before the last attempt all fail. -/
theorem error_of_lt (h : s.Trials handler delay s.maxAttempts 1 start before last)
    (hanswers : ∀ t ∈ before ++ [last], t.answer = answers t.number) {i : Nat} (hpos : 1 ≤ i)
    (hlt : i < last.number) : ∃ failure, answers i = .error failure := by
  have hmem : i ∈ (before ++ [last]).map Trial.number := by
    rw [h.numbers, List.mem_range'_1]
    have hlast := h.number_last
    omega
  obtain ⟨t, ht, rfl⟩ := List.mem_map.mp hmem
  rw [← hanswers t ht]
  rcases List.mem_append.mp ht with ht | ht
  · exact h.failed_before t ht
  · rw [List.mem_singleton.mp ht] at hlt
    exact absurd hlt (Nat.lt_irrefl _)

theorem recorded (h : s.Trials handler delay s.maxAttempts 1 start before last)
    (hanswers : ∀ t ∈ before ++ [last], t.answer = answers t.number) :
    s.Recorded answers ((before ++ [last]).map (Trial.call s.name))
      (last.outcome s.name start) := by
  have hnumber := h.number_last
  have hlast : last.answer = answers last.number :=
    hanswers last (List.mem_append_right _ (List.mem_singleton_self _))
  refine ⟨List.forall_mem_map.mpr fun t _ => rfl, ?_, fun k output hpos hle hk hfirst => ?_,
    fun hall => ?_⟩
  · rw [List.map_map, Trial.attempts_outcome, hnumber, Nat.add_comm 1]
    exact h.numbers
  · rcases Nat.lt_trichotomy k last.number with hlt | rfl | hlt
    · obtain ⟨failure, hfailure⟩ := h.error_of_lt hanswers hpos hlt
      rw [hk] at hfailure
      cases hfailure
    · rw [hk] at hlast
      rw [Trial.outcome, hlast]
      exact ⟨rfl, rfl, rfl, rfl⟩
    · -- A step that goes on behind its last attempt would have more of them than it may have.
      obtain ⟨failure, hfailure⟩ := hfirst last.number (by omega) hlt
      rcases h.decides with ⟨output', houtput⟩ | ⟨hlength, -⟩
      · rw [hlast, hfailure] at houtput
        cases houtput
      · omega
  · rcases h.decides with ⟨output, houtput⟩ | ⟨hlength, failure, hfailure⟩
    · obtain ⟨failure, hfailure⟩ := hall last.number (by omega) (by have := h.length_lt; omega)
      rw [hlast, hfailure] at houtput
      cases houtput
    · have hmax : last.number = s.maxAttempts := by omega
      rw [Trial.outcome, hfailure]
      refine ⟨hmax, rfl, failure, by rw [← hmax, ← hlast, hfailure], rfl, ?_, ?_⟩
      · rw [← isTimeout_iff]
        cases htimeout : failure.isTimeout <;> simp [Outcome.failed, htimeout]
      · rw [← isTimeout_iff]
        cases htimeout : failure.isTimeout <;> simp [Outcome.failed, htimeout]

end Trials

/-- A step whose attempts end is over some time, and from then on. -/
theorem exists_run_of_comesTo (h : s.ComesTo handler delay start answers) :
    ∃ calls o finish, (∀ clock, finish ≤ clock →
      s.run handler delay clock start = ⟨calls, .finished o finish⟩) ∧
      s.Recorded answers calls o := by
  obtain ⟨left, hleft⟩ := Nat.exists_eq_add_one.mpr s.maxAttempts_pos
  obtain ⟨before, last, htrials⟩ :
      ∃ before last, s.Trials handler delay (left + 1) 1 start before last := by
    refine exists_trials fun ahead time hahead htime => ?_
    obtain ⟨finish, hending⟩ := h ahead time (by omega) htime
    rw [hending]
    rfl
  rw [← hleft] at htrials
  exact ⟨_, _, _, fun clock hclock => htrials.run_eq hclock,
    htrials.recorded (htrials.answer_eq h)⟩

/-- The answer of an attempt if there is one, by its number. -/
def answer (s : Step) (handler : Handler) (delay start number : Nat) : Except Failure Json :=
  match (s.begins? handler delay (number - 1) 1 start).bind fun time =>
      s.ending? time (handler time number) with
  | some (_, answer) => answer
  | none => .ok .null

/-- Of a step that is over all attempts have ended. -/
theorem comesTo_of_run (h : s.run handler delay clock start = ⟨calls, .finished o finish⟩) :
    s.ComesTo handler delay start (s.answer handler delay start) ∧
      s.Recorded (s.answer handler delay start) calls o := by
  obtain ⟨before, last, htrials, rfl, rfl, rfl⟩ := trials_of_run h
  have hcomes : s.ComesTo handler delay start (s.answer handler delay start) := by
    intro ahead time hahead hbegins
    obtain ⟨t, ht, hnumber, rfl⟩ := htrials.exists_of_begins? hahead hbegins
    have hending := htrials.ending_of_mem t ht
    rw [hnumber] at hending
    refine ⟨t.finish, ?_⟩
    rw [hending, answer, Nat.add_sub_cancel_left, hbegins, Option.bind_some, hending]
  exact ⟨hcomes, htrials.recorded (htrials.answer_eq hcomes)⟩

/-- At any time the calls made are numbered from one, and no number is above the largest word. -/
theorem numbers_run (s : Step) (handler : Handler) (delay clock start : Nat) :
    (s.run handler delay clock start).calls.map Call.attempt =
        List.range' 1 (s.run handler delay clock start).calls.length ∧
      ∀ call ∈ (s.run handler delay clock start).calls,
        call.attempt ≤ s.maxAttempts ∧ call.attempt < UInt32.size := by
  have hcourse := s.course handler delay start clock 1 start s.maxAttempts_pos
  refine ⟨hcourse.numbers, fun call hcall => ?_⟩
  have hmem := List.mem_map_of_mem (f := Call.attempt) hcall
  rw [run, hcourse.numbers, List.mem_range'_1] at hmem
  have hlength := hcourse.bounds.1
  have hmax := s.maxAttempts_lt
  omega

end Step

/-! ## 2. Reports -/

/-- Each step that was executed is recorded as its attempts have answered. -/
def Definition.FollowsAnswers (d : Definition) (handlers : String → Option Handler) (delay : Nat)
    (calls : List Call) (report : Report) : Prop :=
  ∀ o ∈ report.steps, o.status ≠ .blocked →
    ∃ s ∈ d.steps, ∃ handler began answers, s.name = o.step ∧ handlers s.name = some handler ∧
      o.startedAt = some began ∧ s.ComesTo handler delay began answers ∧
      s.Recorded answers (calls.filter (·.step == s.name)) o

theorem Definition.Ran.followsAnswers {d : Definition} {handlers : String → Option Handler}
    {delay start : Nat} {calls : List Call} {report : Report}
    (h : d.Ran handlers delay start calls report) :
    d.FollowsAnswers handlers delay calls report := by
  obtain ⟨clock, turns, finish, hschedule, hhandlers, rfl, rfl⟩ := h.exists_schedule
  intro o ho hstatus
  obtain ⟨t, ht, rfl⟩ := List.mem_map.mp ho
  obtain ⟨before, after, hsplit⟩ := List.append_of_mem ht
  have htaken := (hschedule.taken hsplit).2
  obtain ⟨hcomes, hrecorded⟩ := Step.comesTo_of_run (htaken.run_of_status_ne hstatus)
  refine ⟨t.step, hschedule.step_mem ht, t.handler, t.start, _, htaken.outcome_step.symm,
    hhandlers t ht, (htaken.free_of_status_ne hstatus).2.startedAt, hcomes, ?_⟩
  rw [hschedule.filter_calls hsplit]
  exact hrecorded

/-- A step that is executed is called with the numbers from one to the first attempt that succeeds,
or else to the last that it may have, and its outcome is that of this attempt. The largest number is
a word of 32 bits. This holds of a step alone, of the reports of a definition and of a runner. -/
theorem outcome_follows_answers :
    (∀ (s : Step) (handler : Handler) (delay start : Nat) (answers : Nat → Except Failure Json),
      s.ComesTo handler delay start answers → ∃ calls o finish, (∀ clock, finish ≤ clock →
        s.run handler delay clock start = ⟨calls, .finished o finish⟩) ∧
        s.Recorded answers calls o) ∧
    (∀ (s : Step) (handler : Handler) (delay clock start : Nat) (calls : List Call) (o : Outcome)
      (finish : Nat), s.run handler delay clock start = ⟨calls, .finished o finish⟩ →
        ∃ answers, s.ComesTo handler delay start answers ∧ s.Recorded answers calls o) ∧
    (∀ (s : Step) (handler : Handler) (delay clock start : Nat),
      (s.run handler delay clock start).calls.map Call.attempt =
          List.range' 1 (s.run handler delay clock start).calls.length ∧
        ∀ call ∈ (s.run handler delay clock start).calls,
          call.attempt ≤ s.maxAttempts ∧ call.attempt < UInt32.size) ∧
    (∀ (d : Definition) (handlers : String → Option Handler) (delay start : Nat)
      (calls : List Call) (report : Report), d.Ran handlers delay start calls report →
        d.FollowsAnswers handlers delay calls report) ∧
    ∀ (delay : Nat) (events : List Event) (r : Runner) (p : Plan) (ticket : Nat)
      (calls : List Call) (report : Report), Runner.History delay events r →
      .accepted ticket p ∈ events → .finished ticket calls report ∈ events →
        ∃ passages, p.definition.FollowsAnswers (p.handlers passages) delay calls report := by
  refine ⟨fun s handler delay start answers h => Step.exists_run_of_comesTo h,
    fun s handler delay clock start calls o finish h => ⟨_, Step.comesTo_of_run h⟩,
    Step.numbers_run, fun d handlers delay start calls report h => h.followsAnswers,
    fun delay events r p ticket calls report h haccepted hfinished => ?_⟩
  obtain ⟨passages, start, hran⟩ := h.exists_ran haccepted hfinished
  exact ⟨passages, hran.followsAnswers⟩

/-- As many retries as can be written down; the second attempt succeeds. -/
def persistentStep : Step :=
  { name := "load", retries := 4294967295 }

def secondAnswers (number : Nat) : Except Failure Json :=
  if number = 2 then .ok .null else .error (.stepTimeout "part" 5)

theorem outcome_follows_answers_second :
    (persistentStep.ComesTo (fun _ number => ⟨some 1, secondAnswers number⟩) 3 0 secondAnswers ∧
      ∃ calls o finish, (∀ clock, finish ≤ clock → persistentStep.run
        (fun _ number => ⟨some 1, secondAnswers number⟩) 3 clock 0 = ⟨calls, .finished o finish⟩) ∧
        (o.attempts = 2 ∧ o.status = .succeeded) ∧ ∃ answers, persistentStep.ComesTo
          (fun _ number => ⟨some 1, secondAnswers number⟩) 3 0 answers ∧
          persistentStep.Recorded answers calls o) ∧
      retriedPlan.definition.FollowsAnswers (retriedPlan.handlers []) 3 retriedCalls
        retriedReport ∧
      ∃ r, Runner.History 3 [.accepted 0 retriedPlan, .finished 0 retriedCalls retriedReport] r ∧
        ∃ passages, retriedPlan.definition.FollowsAnswers (retriedPlan.handlers passages) 3
          retriedCalls retriedReport := by
  have hcomes : persistentStep.ComesTo (fun _ number => ⟨some 1, secondAnswers number⟩) 3 0
      secondAnswers := fun ahead time _ _ => ⟨time + 1, rfl⟩
  obtain ⟨calls, o, finish, hrun, hrecorded⟩ := outcome_follows_answers.1 _ _ _ _ _ hcomes
  have hfirst : ∀ i, 1 ≤ i → i < 2 → ∃ failure, secondAnswers i = .error failure := by
    intro i hpos hlt
    exact ⟨_, if_neg (Nat.ne_of_lt hlt)⟩
  have hsecond := hrecorded.succeeded 2 .null (by decide) (by decide) rfl hfirst
  obtain ⟨r, hr⟩ : ∃ r, Runner.History 3
      [.accepted 0 retriedPlan, .finished 0 retriedCalls retriedReport] r :=
    exists_history rfl (rfl : LiveRun.progress 3 10 _ = _)
  have hback := outcome_follows_answers.2.1 _ _ _ _ _ _ _ _ (hrun finish le_rfl)
  exact ⟨⟨hcomes, calls, o, finish, hrun, ⟨hsecond.1, hsecond.2.1⟩, hback⟩,
    outcome_follows_answers.2.2.2.1 _ _ _ _ _ _ ran_retried, r, hr,
    outcome_follows_answers.2.2.2.2 _ _ _ _ 0 _ _ hr (by simp) (by simp)⟩

end MediaCatalog.Workflow
