import Mathlib.Algebra.Ring.Nat
import Mathlib.Data.List.Forall2
import MediaCatalog.Proofs.Workflow.Turn

/-!
# Clock — how far a run has come at one time and at a later one

`Step.Course` and `Course` list the ways in which the attempts of a step and the jobs of a run can
stand at a time. They count the moments that have passed, which are the starts and the ends of
attempts. Nothing changes before the time at which a run goes on by itself (`Course.later`), and
then one moment more has passed (`Course.lt_moments`).
-/

namespace MediaCatalog.Workflow

/-! ## 1. The attempts of one step -/

namespace Step

/-- The number of starts and ends of attempts up to the given time. -/
def moments (s : Step) (handler : Handler) (delay clock : Nat) : (left number start : Nat) → Nat
  | 0, _, _ => 0
  | left + 1, number, start =>
    if clock < start then 0
    else
      match s.ending? start (handler start number) with
      | none => 1
      | some (finish, answer) =>
        if clock < finish then 1
        else
          match answer, left with
          | .ok _, _ | .error _, 0 => 2
          | .error _, left + 1 =>
            2 + s.moments handler delay clock (left + 1) (number + 1) (finish + delay)

/-- The ways in which attempts can stand, with the number of moments that have passed. -/
inductive Course (s : Step) (handler : Handler) (delay began clock : Nat) :
    (left number start moments : Nat) → Progress Outcome → Prop where
  | early {left number start : Nat} (before : clock < start) :
    Course s handler delay began clock (left + 1) number start 0 ⟨[], .busy (some start)⟩
  | endless {left number start : Nat} (started : start ≤ clock)
      (ending : s.ending? start (handler start number) = none) :
    Course s handler delay began clock (left + 1) number start 1
      ⟨[⟨s.name, number, start⟩], .busy none⟩
  | going {left number start finish : Nat} {answer : Except Failure Json}
      (started : start ≤ clock) (before : clock < finish)
      (ending : s.ending? start (handler start number) = some (finish, answer)) :
    Course s handler delay began clock (left + 1) number start 1
      ⟨[⟨s.name, number, start⟩], .busy (some finish)⟩
  | succeeded {left number start finish : Nat} {output : Json} (ended : finish ≤ clock)
      (ending : s.ending? start (handler start number) = some (finish, .ok output)) :
    Course s handler delay began clock (left + 1) number start 2
      ⟨[⟨s.name, number, start⟩], .finished (.succeeded s.name number output began finish) finish⟩
  | failed {number start finish : Nat} {failure : Failure} (ended : finish ≤ clock)
      (ending : s.ending? start (handler start number) = some (finish, .error failure)) :
    Course s handler delay began clock 1 number start 2
      ⟨[⟨s.name, number, start⟩], .finished (.failed s.name number failure began finish) finish⟩
  | retried {left number start finish moments : Nat} {failure : Failure} {p : Progress Outcome}
      (ended : finish ≤ clock)
      (ending : s.ending? start (handler start number) = some (finish, .error failure))
      (rest : Course s handler delay began clock (left + 1) (number + 1) (finish + delay) moments
        p) :
    Course s handler delay began clock (left + 2) number start (2 + moments)
      (p.after [⟨s.name, number, start⟩])

variable {s : Step} {handler : Handler} {delay began clock left number start : Nat}

theorem exists_course (s : Step) (handler : Handler) (delay began clock left number start : Nat) :
    ∃ moments p, s.Course handler delay began clock (left + 1) number start moments p := by
  rcases Nat.lt_or_ge clock start with hbefore | hstarted
  · exact ⟨_, _, .early hbefore⟩
  cases hending : s.ending? start (handler start number) with
  | none => exact ⟨_, _, .endless hstarted hending⟩
  | some ending =>
    obtain ⟨finish, answer⟩ := ending
    rcases Nat.lt_or_ge clock finish with hbefore | hended
    · exact ⟨_, _, .going hstarted hbefore hending⟩
    cases answer with
    | ok output => exact ⟨_, _, .succeeded hended hending⟩
    | error failure =>
      cases left with
      | zero => exact ⟨_, _, .failed hended hending⟩
      | succ left =>
        obtain ⟨moments, p, hrest⟩ :=
          exists_course s handler delay began clock left (number + 1) (finish + delay)
        exact ⟨_, _, .retried hended hending hrest⟩
termination_by left

theorem Course.eq {moments : Nat} {p : Progress Outcome}
    (h : s.Course handler delay began clock left number start moments p) :
    s.attempt handler delay began clock left number start = p ∧
      s.moments handler delay clock left number start = moments := by
  induction h with
  | early before => exact ⟨by rw [attempt, if_pos before], by rw [Step.moments, if_pos before]⟩
  | endless started ending =>
    rw [attempt, Step.moments, ending]
    exact ⟨if_neg (Nat.not_lt.mpr started), if_neg (Nat.not_lt.mpr started)⟩
  | going started before ending =>
    rw [attempt, Step.moments, ending, if_neg (Nat.not_lt.mpr started),
      if_neg (Nat.not_lt.mpr started)]
    exact ⟨if_pos before, if_pos before⟩
  | succeeded ended ending =>
    have hle := Nat.le_trans (le_of_ending? ending) ended
    refine ⟨attempt_of_ok ending ended, ?_⟩
    simp only [Step.moments, ending, if_neg (Nat.not_lt.mpr hle), if_neg (Nat.not_lt.mpr ended)]
  | failed ended ending =>
    have hle := Nat.le_trans (le_of_ending? ending) ended
    refine ⟨attempt_of_last_error ending ended, ?_⟩
    simp only [Step.moments, ending, if_neg (Nat.not_lt.mpr hle), if_neg (Nat.not_lt.mpr ended)]
  | retried ended ending _ ih =>
    have hle := Nat.le_trans (le_of_ending? ending) ended
    refine ⟨by rw [attempt_of_error ending ended, ih.1], ?_⟩
    rw [Step.moments, ending, ← ih.2]
    simp only [if_neg (Nat.not_lt.mpr hle), if_neg (Nat.not_lt.mpr ended)]

theorem course (s : Step) (handler : Handler) (delay began clock : Nat) {left : Nat}
    (number start : Nat) (hleft : 0 < left) :
    s.Course handler delay began clock left number start
      (s.moments handler delay clock left number start)
      (s.attempt handler delay began clock left number start) := by
  obtain ⟨left, rfl⟩ := Nat.exists_eq_add_one.mpr hleft
  obtain ⟨moments, p, h⟩ := exists_course s handler delay began clock left number start
  obtain ⟨rfl, rfl⟩ := h.eq
  exact h

namespace Course
variable {moments : Nat} {p : Progress Outcome}

/-- There is a call for every start, and at most the last one has no end yet. -/
theorem bounds (h : s.Course handler delay began clock left number start moments p) :
    p.calls.length ≤ left ∧ moments ≤ 2 * p.calls.length ∧ 2 * p.calls.length ≤ moments + 1 := by
  induction h with
  | early => simp
  | endless | going | succeeded | failed => simp
  | retried _ _ _ ih =>
    simp only [Progress.after, List.length_append, List.length_singleton]
    omega

/-- When all attempts are over, each has had its end. -/
theorem moments_eq (h : s.Course handler delay began clock left number start moments p)
    {o : Outcome} {finish : Nat} (hfinished : p.standing = .finished o finish) :
    moments = 2 * p.calls.length := by
  induction h with
  | early | endless | going => cases hfinished
  | succeeded | failed => rfl
  | retried _ _ _ ih =>
    simp only [Progress.after, List.length_append, List.length_singleton]
    have := ih hfinished
    omega

theorem own (h : s.Course handler delay began clock left number start moments p) :
    ∀ call ∈ p.calls, call.step = s.name ∧ number ≤ call.attempt := by
  induction h with
  | early => simp
  | endless | going | succeeded | failed => simp
  | retried _ _ _ ih =>
    refine List.forall_mem_cons.mpr ⟨⟨rfl, Nat.le_refl _⟩, fun call hcall => ?_⟩
    exact ⟨(ih call hcall).1, Nat.le_of_succ_le (ih call hcall).2⟩

theorem numbers (h : s.Course handler delay began clock left number start moments p) :
    p.calls.map Call.attempt = List.range' number p.calls.length := by
  induction h with
  | early | endless | going | succeeded | failed => rfl
  | retried _ _ _ ih => exact congrArg (_ :: ·) ih

/-- What wakes the step is still to come. -/
theorem lt_wake (h : s.Course handler delay began clock left number start moments p) {wake : Nat}
    (hbusy : p.standing = .busy (some wake)) : clock < wake := by
  induction h with
  | early before | going _ before => cases hbusy; exact before
  | endless | succeeded | failed => cases hbusy
  | retried _ _ _ ih => exact ih hbusy

/-- Nothing changes before the step wakes. -/
theorem later (h : s.Course handler delay began clock left number start moments p) {time : Nat}
    (hle : clock ≤ time) (hasleep : ∀ wake, p.standing = .busy (some wake) → time < wake) :
    s.Course handler delay began time left number start moments p := by
  induction h with
  | early => exact .early (hasleep _ rfl)
  | endless started ending => exact .endless (Nat.le_trans started hle) ending
  | going started _ ending => exact .going (Nat.le_trans started hle) (hasleep _ rfl) ending
  | succeeded ended ending => exact .succeeded (Nat.le_trans ended hle) ending
  | failed ended ending => exact .failed (Nat.le_trans ended hle) ending
  | retried ended ending _ ih => exact .retried (Nat.le_trans ended hle) ending (ih hasleep)

theorem moments_pos (h : s.Course handler delay began clock left number start moments p)
    (hstart : start ≤ clock) : 0 < moments := by
  cases h with
  | early before => omega
  | endless | going | succeeded | failed | retried => omega

theorem two_le_moments (h : s.Course handler delay began clock left number start moments p)
    {finish : Nat} {answer : Except Failure Json}
    (hending : s.ending? start (handler start number) = some (finish, answer))
    (hended : finish ≤ clock) : 2 ≤ moments := by
  have hle := le_of_ending? hending
  cases h with
  | early before => omega
  | endless _ ending => rw [hending] at ending; cases ending
  | going _ before ending => rw [hending] at ending; cases ending; omega
  | succeeded | failed | retried => omega

/-- When the step has woken, one moment more has passed. -/
theorem lt_moments (h : s.Course handler delay began clock left number start moments p)
    {wake time : Nat} (hbusy : p.standing = .busy (some wake)) (hwoken : wake ≤ time) :
    moments < s.moments handler delay time left number start := by
  induction h with
  | @early left number start before =>
    obtain rfl : start = wake := by injection hbusy with h; injection h
    exact (s.course handler delay began time number start (Nat.succ_pos left)).moments_pos hwoken
  | @going left number start _ _ _ _ ending =>
    obtain rfl : _ = wake := by injection hbusy with h; injection h
    exact (s.course handler delay began time number start (Nat.succ_pos left)).two_le_moments
      ending hwoken
  | endless | succeeded | failed => cases hbusy
  | @retried left number start finish _ _ _ ended ending rest ih =>
    have hended : finish ≤ time := by
      have := rest.lt_wake hbusy
      omega
    have hrest := s.course handler delay began time (number + 1) (finish + delay)
      (Nat.succ_pos left)
    rw [(Course.retried hended ending hrest).eq.2]
    exact Nat.add_lt_add_left (ih hbusy) 2

/-- If every attempt ends, there is always something that wakes the step. -/
theorem exists_wake (h : s.Course handler delay began clock left number start moments p)
    (hends : ∀ start number, (s.ending? start (handler start number)).isSome) {wake : Option Nat}
    (hbusy : p.standing = .busy wake) : wake.isSome := by
  induction h with
  | early | going => cases hbusy; rfl
  | @endless _ number start _ ending =>
    have hsome := hends start number
    rw [ending] at hsome
    cases hsome
  | succeeded | failed => cases hbusy
  | retried _ _ _ ih => exact ih hbusy

theorem calls_pos (h : s.Course handler delay began clock left number start moments p)
    (hstart : start ≤ clock) : 0 < p.calls.length := by
  have hmoments := h.moments_pos hstart
  have hbounds := h.bounds
  omega

theorem started (h : s.Course handler delay began clock left number start moments p)
    (hcalls : p.calls ≠ []) : start ≤ clock := by
  cases h with
  | early => exact absurd rfl hcalls
  | endless started | going started => exact started
  | succeeded ended ending | failed ended ending | retried ended ending =>
    exact Nat.le_trans (le_of_ending? ending) ended

/-- A call is made again if other handlers agree on all attempts before it. -/
theorem lt_calls (h : s.Course handler delay began clock left number start moments p)
    {handler' : Handler} {before after : List Call} {call : Call}
    (hagree : ∀ start number, number ≠ call.attempt → handler' start number = handler start number)
    (hcalls : p.calls = before ++ call :: after) :
    before.length < (s.attempt handler' delay began clock left number start).calls.length := by
  have hstart := h.started (by rw [hcalls]; simp)
  induction h generalizing before with
  | early before => omega
  | @endless left number start | @going left number start | @succeeded left number start =>
    obtain rfl : before = [] := by cases before <;> simp at hcalls ⊢
    exact (s.course handler' delay began clock number start (Nat.succ_pos left)).calls_pos hstart
  | @failed number start =>
    obtain rfl : before = [] := by cases before <;> simp at hcalls ⊢
    exact (s.course handler' delay began clock number start Nat.one_pos).calls_pos hstart
  | @retried left number start finish _ _ p ended ending rest ih =>
    cases before with
    | nil =>
      exact (s.course handler' delay began clock number start (Nat.succ_pos _)).calls_pos hstart
    | cons first before =>
      -- The call belongs to a later attempt, so this one goes as before.
      have hcalls' : p.calls = before ++ call :: after := (List.cons.inj hcalls).2
      have hmem : call ∈ p.calls := hcalls' ▸ List.mem_append_right _ List.mem_cons_self
      have hnumber := (rest.own call hmem).2
      rw [← hagree start number (by omega)] at ending
      rw [attempt_of_error ending ended]
      have hrest := ih hcalls' (rest.started (List.ne_nil_of_mem hmem))
      simp only [Progress.after, List.length_append, List.length_cons, List.length_nil]
      omega

end Course

end Step

/-! ## 2. The jobs of a run -/

/-- The number of starts and ends of attempts of all jobs up to the given time. -/
def runMoments (delay clock : Nat) : List (Step × Handler) → (done : List Outcome) →
    (start : Nat) → Nat
  | [], _, _ => 0
  | (s, handler) :: rest, done, start =>
    match s.blockedBy? done with
    | some dependency =>
      runMoments delay clock rest (done ++ [.blocked s.name dependency]) start
    | none =>
      s.moments handler delay clock s.maxAttempts 1 start +
        match (s.run handler delay clock start).standing with
        | .finished outcome finish => runMoments delay clock rest (done ++ [outcome]) finish
        | .busy _ => 0

/-- The ways in which jobs can stand, with the number of moments that have passed. -/
inductive Course (delay clock : Nat) : List (Step × Handler) → (done : List Outcome) →
    (start moments : Nat) → Progress (List Outcome) → Prop where
  | nil {done : List Outcome} {start : Nat} :
    Course delay clock [] done start 0 ⟨[], .finished done start⟩
  | blocked {s : Step} {handler : Handler} {jobs : List (Step × Handler)} {done : List Outcome}
      {start moments : Nat} {dependency : String} {p : Progress (List Outcome)}
      (blocked : s.blockedBy? done = some dependency)
      (rest : Course delay clock jobs (done ++ [.blocked s.name dependency]) start moments p) :
    Course delay clock ((s, handler) :: jobs) done start moments p
  | busy {s : Step} {handler : Handler} {jobs : List (Step × Handler)} {done : List Outcome}
      {start moments : Nat} {calls : List Call} {wake : Option Nat}
      (free : s.blockedBy? done = none)
      (now : s.Course handler delay start clock s.maxAttempts 1 start moments
        ⟨calls, .busy wake⟩) :
    Course delay clock ((s, handler) :: jobs) done start moments ⟨calls, .busy wake⟩
  | next {s : Step} {handler : Handler} {jobs : List (Step × Handler)} {done : List Outcome}
      {start finish first moments : Nat} {calls : List Call} {o : Outcome}
      {p : Progress (List Outcome)} (free : s.blockedBy? done = none)
      (now : s.Course handler delay start clock s.maxAttempts 1 start first
        ⟨calls, .finished o finish⟩)
      (rest : Course delay clock jobs (done ++ [o]) finish moments p) :
    Course delay clock ((s, handler) :: jobs) done start (first + moments) (p.after calls)

theorem Step.maxAttempts_pos (s : Step) : 0 < s.maxAttempts := by
  unfold Step.maxAttempts
  have : 1 < UInt32.size := by decide
  omega

variable {delay clock start moments : Nat} {jobs : List (Step × Handler)} {done : List Outcome}
  {p : Progress (List Outcome)}

theorem exists_course (delay clock : Nat) (jobs : List (Step × Handler)) (done : List Outcome)
    (start : Nat) : ∃ moments p, Course delay clock jobs done start moments p := by
  induction jobs generalizing done start with
  | nil => exact ⟨_, _, .nil⟩
  | cons job jobs ih =>
    obtain ⟨s, handler⟩ := job
    cases hblocked : s.blockedBy? done with
    | some dependency =>
      obtain ⟨moments, p, hrest⟩ := ih (done ++ [.blocked s.name dependency]) start
      exact ⟨moments, p, .blocked hblocked hrest⟩
    | none =>
      have hnow := s.course handler delay start clock 1 start s.maxAttempts_pos
      generalize s.attempt handler delay start clock s.maxAttempts 1 start = p at hnow
      obtain ⟨calls, standing⟩ := p
      cases standing with
      | busy wake => exact ⟨_, _, .busy hblocked hnow⟩
      | finished o finish =>
        obtain ⟨moments, p, hrest⟩ := ih (done ++ [o]) finish
        exact ⟨_, _, .next hblocked hnow hrest⟩

theorem Course.eq (h : Course delay clock jobs done start moments p) :
    runJobs delay clock jobs done start = p ∧ runMoments delay clock jobs done start = moments := by
  induction h with
  | nil => exact ⟨rfl, rfl⟩
  | blocked hblocked _ ih =>
    refine ⟨(runJobs_of_blocked hblocked).trans ih.1, ?_⟩
    rw [runMoments, hblocked]
    exact ih.2
  | busy hfree now =>
    rw [runJobs, runMoments, hfree]
    dsimp only
    rw [Step.run, now.eq.1, now.eq.2]
    exact ⟨rfl, rfl⟩
  | next hfree now _ ih =>
    refine ⟨by rw [runJobs_of_finished hfree now.eq.1, ih.1], ?_⟩
    rw [runMoments, hfree]
    dsimp only
    rw [Step.run, now.eq.1, now.eq.2]
    exact congrArg _ ih.2

theorem course (delay clock : Nat) (jobs : List (Step × Handler)) (done : List Outcome)
    (start : Nat) : Course delay clock jobs done start (runMoments delay clock jobs done start)
      (runJobs delay clock jobs done start) := by
  obtain ⟨moments, p, h⟩ := exists_course delay clock jobs done start
  obtain ⟨rfl, rfl⟩ := h.eq
  exact h

namespace Course

theorem bounds (h : Course delay clock jobs done start moments p) :
    p.calls.length ≤ (jobs.map (·.1.maxAttempts)).sum ∧ moments ≤ 2 * p.calls.length ∧
      2 * p.calls.length ≤ moments + 1 := by
  induction h with
  | nil => simp
  | blocked _ _ ih =>
    rw [List.map_cons, List.sum_cons]
    omega
  | busy _ now =>
    have hbounds := now.bounds
    rw [List.map_cons, List.sum_cons]
    dsimp only at hbounds ⊢
    omega
  | next _ now _ ih =>
    have hlength := now.bounds.1
    have hmoments := now.moments_eq rfl
    simp only [Progress.after, List.length_append, List.map_cons, List.sum_cons]
    dsimp only at hlength hmoments
    omega

theorem own (h : Course delay clock jobs done start moments p) :
    ∀ call ∈ p.calls, call.step ∈ jobs.map (·.1.name) := by
  induction h with
  | nil => simp
  | blocked _ _ ih => exact fun call hcall => List.mem_cons_of_mem _ (ih call hcall)
  | busy _ now => exact fun call hcall => (now.own call hcall).1 ▸ List.mem_cons_self
  | next _ now _ ih =>
    intro call hcall
    rcases List.mem_append.mp hcall with hcall | hcall
    · exact (now.own call hcall).1 ▸ List.mem_cons_self
    · exact List.mem_cons_of_mem _ (ih call hcall)

/-- What wakes a run is still to come. -/
theorem lt_wake (h : Course delay clock jobs done start moments p) {wake : Nat}
    (hbusy : p.standing = .busy (some wake)) : clock < wake := by
  induction h with
  | nil => cases hbusy
  | blocked _ _ ih => exact ih hbusy
  | busy _ now => exact now.lt_wake (by injection hbusy with h; rw [h])
  | next _ _ _ ih => exact ih hbusy

/-- Nothing changes before a run wakes. -/
theorem later (h : Course delay clock jobs done start moments p) {time : Nat}
    (hle : clock ≤ time) (hasleep : ∀ wake, p.standing = .busy (some wake) → time < wake) :
    Course delay time jobs done start moments p := by
  induction h with
  | nil => exact .nil
  | blocked hblocked _ ih => exact .blocked hblocked (ih hasleep)
  | busy hfree now =>
    exact .busy hfree (now.later hle fun wake h => hasleep wake (by injection h with h; rw [h]))
  | next hfree now _ ih =>
    exact .next hfree (now.later hle fun wake h => by cases h) (ih hasleep)

/-- When a run has woken, one moment more has passed. -/
theorem lt_moments (h : Course delay clock jobs done start moments p) {wake time : Nat}
    (hbusy : p.standing = .busy (some wake)) (hwoken : wake ≤ time) :
    moments < runMoments delay time jobs done start := by
  induction h with
  | nil => cases hbusy
  | blocked hblocked _ ih =>
    rw [(Course.blocked hblocked (course delay time _ _ _)).eq.2]
    exact ih hbusy
  | busy hfree now =>
    rw [runMoments, hfree]
    have hnow := now.lt_moments (by injection hbusy with h; rw [h]) hwoken
    exact Nat.lt_of_lt_of_le hnow (Nat.le_add_right _ _)
  | next hfree now rest ih =>
    have hle : clock ≤ time := by
      have := rest.lt_wake hbusy
      omega
    have hnow := now.later hle fun wake h => by cases h
    rw [(Course.next hfree hnow (course delay time _ _ _)).eq.2]
    exact Nat.add_lt_add_left (ih hbusy) _

/-- If every attempt ends, there is always something that wakes the run. -/
theorem exists_wake (h : Course delay clock jobs done start moments p)
    (hends : ∀ job ∈ jobs, ∀ start number, (job.1.ending? start (job.2 start number)).isSome)
    {wake : Option Nat} (hbusy : p.standing = .busy wake) : wake.isSome := by
  induction h with
  | nil => cases hbusy
  | blocked _ _ ih => exact ih (fun job hjob => hends job (List.mem_cons_of_mem _ hjob)) hbusy
  | busy _ now =>
    exact now.exists_wake (hends _ List.mem_cons_self) (by injection hbusy with h; rw [h])
  | next _ _ _ ih => exact ih (fun job hjob => hends job (List.mem_cons_of_mem _ hjob)) hbusy

end Course

/-- The second job is the first with another handler, which differs at one call at most. -/
def DiffersAt (call : Call) (job job' : Step × Handler) : Prop :=
  job'.1 = job.1 ∧ ∀ start number, (job.1.name = call.step → number ≠ call.attempt) →
    job'.2 start number = job.2 start number

theorem length_run_le {s : Step} {handler : Handler} (hfree : s.blockedBy? done = none) :
    (s.run handler delay clock start).calls.length ≤
      (runJobs delay clock ((s, handler) :: jobs) done start).calls.length := by
  rw [runJobs, hfree]
  dsimp only
  split
  next hrun => simp [hrun, Progress.after]
  next hrun => exact Nat.le_of_eq (by rw [hrun])

theorem exists_of_append_eq {first rest before after : List Call} {call : Call}
    (h : first ++ rest = before ++ call :: after) :
    (∃ later, first = before ++ call :: later) ∨
      ∃ middle, before = first ++ middle ∧ rest = middle ++ call :: after := by
  rcases List.append_eq_append_iff.mp h with ⟨middle, hbefore, hrest⟩ | ⟨middle, hfirst, hafter⟩
  · exact Or.inr ⟨middle, hbefore, hrest⟩
  · cases middle with
    | nil => exact Or.inr ⟨[], by rw [hfirst, List.append_nil, List.append_nil], hafter.symm⟩
    | cons own later =>
      obtain ⟨rfl, -⟩ := List.cons.inj hafter
      exact Or.inl ⟨later, hfirst⟩

/-- A call is made again if other handlers agree on all attempts before it. -/
theorem Course.lt_calls (h : Course delay clock jobs done start moments p)
    (hnodup : (jobs.map (·.1.name)).Nodup) {jobs' : List (Step × Handler)}
    {before after : List Call} {call : Call} (hdiffers : List.Forall₂ (DiffersAt call) jobs jobs')
    (hcalls : p.calls = before ++ call :: after) :
    before.length < (runJobs delay clock jobs' done start).calls.length := by
  induction h generalizing before jobs' with
  | nil => simp at hcalls
  | blocked hblocked _ ih =>
    obtain ⟨⟨s', handler'⟩, rest', ⟨hstep, -⟩, hrest, rfl⟩ :=
      List.forall₂_cons_left_iff.mp hdiffers
    obtain rfl : s' = _ := hstep
    rw [runJobs_of_blocked hblocked]
    exact ih (List.nodup_cons.mp hnodup).2 hrest hcalls
  | busy hfree now =>
    obtain ⟨⟨s', handler'⟩, rest', ⟨hstep, hagree⟩, hrest, rfl⟩ :=
      List.forall₂_cons_left_iff.mp hdiffers
    obtain rfl : s' = _ := hstep
    have hnow := now.lt_calls (fun start number hne => hagree start number fun _ => hne) hcalls
    exact Nat.lt_of_lt_of_le hnow (length_run_le hfree)
  | @next _ _ _ _ _ _ _ _ calls _ p hfree now rest ih =>
    obtain ⟨⟨s', handler'⟩, rest', ⟨hstep, hagree⟩, hrest, rfl⟩ :=
      List.forall₂_cons_left_iff.mp hdiffers
    obtain rfl : s' = _ := hstep
    have hnodup' := List.nodup_cons.mp hnodup
    -- The call belongs to this job or to a later one.
    rcases exists_of_append_eq hcalls with ⟨later, hown⟩ | ⟨middle, rfl, hlater⟩
    · have hnow := now.lt_calls (fun start number hne => hagree start number fun _ => hne) hown
      exact Nat.lt_of_lt_of_le hnow (length_run_le hfree)
    · have hmem : call ∈ p.calls := hlater ▸ List.mem_append_right middle List.mem_cons_self
      have hne : s'.name ≠ call.step := fun heq => by
        have hname := rest.own call hmem
        rw [← heq] at hname
        exact hnodup'.1 hname
      obtain rfl : handler' = _ :=
        funext₂ fun start number => hagree start number fun heq => absurd heq hne
      have hlt := ih hnodup'.2 hrest hlater
      rw [runJobs_of_finished hfree now.eq.1]
      simp only [Progress.after, List.length_append]
      omega

end MediaCatalog.Workflow
