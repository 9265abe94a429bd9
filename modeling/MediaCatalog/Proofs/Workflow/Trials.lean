import Mathlib.Data.List.Chain
import MediaCatalog.Workflow.Run

/-!
# Trials — the attempts of a step, up to the one that decides

A step is attempted until an attempt succeeds or none is left. If these attempts end, they are a
list (`Step.Trials`) that does not depend on when the step is looked at: by a time it has made the
calls of those that have begun (`Trials.calls_attempt`), and when the last has ended it is over
(`Trials.attempt_eq`).
-/

namespace MediaCatalog.Workflow

theorem Progress.after_eq {α : Type} {first all : List Call} {p : Progress α}
    {standing : Standing α} (h : p.after first = ⟨all, standing⟩) :
    ∃ later, p = ⟨later, standing⟩ ∧ all = first ++ later := by
  rw [after, Progress.mk.injEq] at h
  exact ⟨p.calls, by rw [← h.2], h.1.symm⟩

/-! ## 1. One attempt -/

namespace Step

theorem le_of_ending? {s : Step} {start finish : Nat} {a : Attempt} {answer : Except Failure Json}
    (h : s.ending? start a = some (finish, answer)) : start ≤ finish := by
  unfold ending? at h
  split at h
  · cases h
  · simp only [Option.some.injEq, Prod.mk.injEq] at h
    omega
  · simp only [Option.some.injEq, Prod.mk.injEq] at h
    omega
  · split at h <;> simp only [Option.some.injEq, Prod.mk.injEq] at h <;> omega

section Ending
variable {s : Step} {handler : Handler} {delay began clock left number start finish : Nat}

theorem attempt_of_lt (hclock : clock < start) :
    s.attempt handler delay began clock (left + 1) number start = ⟨[], .busy (some start)⟩ := by
  rw [attempt, if_pos hclock]

theorem attempt_of_going {answer : Except Failure Json} (hstart : start ≤ clock)
    (hending : s.ending? start (handler start number) = some (finish, answer))
    (hclock : clock < finish) :
    s.attempt handler delay began clock (left + 1) number start =
      ⟨[⟨s.name, number, start⟩], .busy (some finish)⟩ := by
  rw [attempt, hending, if_neg (Nat.not_lt.mpr hstart)]
  exact if_pos hclock

/-! An attempt that is over by the time seen is a success, the last failure or a failure that is
followed by the next attempt. -/

theorem attempt_of_ok {output : Json}
    (hending : s.ending? start (handler start number) = some (finish, .ok output))
    (hclock : finish ≤ clock) :
    s.attempt handler delay began clock (left + 1) number start =
      ⟨[⟨s.name, number, start⟩],
        .finished (.succeeded s.name number output began finish) finish⟩ := by
  have hle := le_of_ending? hending
  rw [attempt, hending, if_neg (by omega)]
  exact if_neg (by omega)

theorem attempt_of_last_error {failure : Failure}
    (hending : s.ending? start (handler start number) = some (finish, .error failure))
    (hclock : finish ≤ clock) :
    s.attempt handler delay began clock 1 number start =
      ⟨[⟨s.name, number, start⟩],
        .finished (.failed s.name number failure began finish) finish⟩ := by
  have hle := le_of_ending? hending
  rw [attempt, hending, if_neg (by omega)]
  exact if_neg (by omega)

theorem attempt_of_error {failure : Failure}
    (hending : s.ending? start (handler start number) = some (finish, .error failure))
    (hclock : finish ≤ clock) :
    s.attempt handler delay began clock (left + 2) number start =
      (s.attempt handler delay began clock (left + 1) (number + 1) (finish + delay)).after
        [⟨s.name, number, start⟩] := by
  have hle := le_of_ending? hending
  rw [attempt, hending, if_neg (by omega)]
  exact if_neg (by omega)

end Ending

end Step

/-! ## 2. All attempts of a step -/

/-- An attempt that is over. -/
structure Trial where
  number : Nat
  start : Nat
  finish : Nat
  answer : Except Failure Json

namespace Trial

def call (step : String) (t : Trial) : Call :=
  ⟨step, t.number, t.start⟩

/-- What is recorded of a step after its last attempt. -/
def outcome (step : String) (began : Nat) (t : Trial) : Outcome :=
  match t.answer with
  | .ok output => .succeeded step t.number output began t.finish
  | .error failure => .failed step t.number failure began t.finish

section Outcome
variable (step : String) (began : Nat) (t : Trial)

theorem step_outcome : (t.outcome step began).step = step := by
  unfold outcome
  split <;> rfl

theorem status_outcome : (t.outcome step began).status ≠ .blocked := by
  unfold outcome
  split
  next => simp [Outcome.succeeded]
  next failure _ => cases htimeout : failure.isTimeout <;> simp [Outcome.failed, htimeout]

theorem attempts_outcome : (t.outcome step began).attempts = t.number := by
  unfold outcome
  split <;> rfl

theorem startedAt_outcome : (t.outcome step began).startedAt = some began := by
  unfold outcome
  split <;> rfl

theorem finishedAt_outcome : (t.outcome step began).finishedAt = some t.finish := by
  unfold outcome
  split <;> rfl

end Outcome

end Trial

namespace Step

/-- When the attempt begins that is so many ahead of one with a number and a time, if it comes to
that: all attempts before it have to fail. -/
def begins? (s : Step) (handler : Handler) (delay : Nat) : (ahead number start : Nat) → Option Nat
  | 0, _, start => some start
  | ahead + 1, number, start =>
    match s.ending? start (handler start number) with
    | some (finish, .error _) => s.begins? handler delay ahead (number + 1) (finish + delay)
    | _ => none

/-- Attempts one after the other, when so many are left at first: those that are followed by another
one, and the last. -/
inductive Trials (s : Step) (handler : Handler) (delay : Nat) :
    (left number start : Nat) → List Trial → Trial → Prop where
  | succeeded {left number start finish : Nat} {output : Json}
      (ending : s.ending? start (handler start number) = some (finish, .ok output)) :
    Trials s handler delay (left + 1) number start [] ⟨number, start, finish, .ok output⟩
  | failed {number start finish : Nat} {failure : Failure}
      (ending : s.ending? start (handler start number) = some (finish, .error failure)) :
    Trials s handler delay 1 number start [] ⟨number, start, finish, .error failure⟩
  | retried {left number start finish : Nat} {failure : Failure} {before : List Trial}
      {last : Trial}
      (ending : s.ending? start (handler start number) = some (finish, .error failure))
      (rest : Trials s handler delay (left + 1) (number + 1) (finish + delay) before last) :
    Trials s handler delay (left + 2) number start
      (⟨number, start, finish, .error failure⟩ :: before) last

variable {s : Step} {handler : Handler} {delay began clock left number start finish : Nat}

theorem begins?_succ {failure : Failure}
    (hending : s.ending? start (handler start number) = some (finish, .error failure))
    (ahead : Nat) : s.begins? handler delay (ahead + 1) number start =
      s.begins? handler delay ahead (number + 1) (finish + delay) := by
  rw [begins?, hending]

theorem begins?_succ_of_ok {output : Json}
    (hending : s.ending? start (handler start number) = some (finish, .ok output)) (ahead : Nat) :
    s.begins? handler delay (ahead + 1) number start = none := by
  rw [begins?, hending]

/-! ### Which attempts there are -/

/-- If the attempts that are reached end, one of them decides. -/
theorem exists_trials
    (hends : ∀ ahead time, ahead ≤ left → s.begins? handler delay ahead number start = some time →
      (s.ending? time (handler time (number + ahead))).isSome) :
    ∃ before last, s.Trials handler delay (left + 1) number start before last := by
  induction left generalizing number start with
  | zero =>
    obtain ⟨⟨finish, answer⟩, hending⟩ := Option.isSome_iff_exists.mp (hends 0 start le_rfl rfl)
    cases answer with
    | ok output => exact ⟨_, _, .succeeded hending⟩
    | error failure => exact ⟨_, _, .failed hending⟩
  | succ left ih =>
    obtain ⟨⟨finish, answer⟩, hending⟩ :=
      Option.isSome_iff_exists.mp (hends 0 start (Nat.zero_le _) rfl)
    cases answer with
    | ok output => exact ⟨_, _, .succeeded hending⟩
    | error failure =>
      obtain ⟨before, last, hrest⟩ : ∃ before last,
          s.Trials handler delay (left + 1) (number + 1) (finish + delay) before last := by
        refine ih fun ahead time hahead htime => ?_
        rw [Nat.add_assoc, Nat.add_comm 1]
        exact hends (ahead + 1) time (Nat.succ_le_succ hahead)
          ((begins?_succ hending _).trans htime)
      exact ⟨_, _, .retried hending hrest⟩

/-- A step that is over has had its attempts. -/
theorem trials_of_attempt {calls : List Call} {o : Outcome}
    (h : s.attempt handler delay began clock left number start = ⟨calls, .finished o finish⟩) :
    ∃ before last, s.Trials handler delay left number start before last ∧
      calls = (before ++ [last]).map (Trial.call s.name) ∧ o = last.outcome s.name began ∧
      finish = last.finish := by
  induction left generalizing number start calls with
  | zero => rw [attempt] at h; cases h
  | succ left ih =>
    rw [attempt] at h
    split at h
    next => cases h
    next =>
      split at h
      next => cases h
      next ending answer hending =>
        split at h
        next => cases h
        next =>
          cases answer with
          | ok output =>
            cases h
            exact ⟨[], _, .succeeded hending, rfl, rfl, rfl⟩
          | error failure =>
            cases left with
            | zero =>
              cases h
              exact ⟨[], _, .failed hending, rfl, rfl, rfl⟩
            | succ left =>
              -- The calls that follow are those of the attempts that are left.
              obtain ⟨later, hrest, rfl⟩ := Progress.after_eq h
              obtain ⟨before, last, htrials, rfl, ho, hfinish⟩ := ih hrest
              exact ⟨_, last, .retried hending htrials, rfl, ho, hfinish⟩

theorem trials_of_run {calls : List Call} {o : Outcome}
    (h : s.run handler delay clock start = ⟨calls, .finished o finish⟩) :
    ∃ before last, s.Trials handler delay s.maxAttempts 1 start before last ∧
      calls = (before ++ [last]).map (Trial.call s.name) ∧ o = last.outcome s.name start ∧
      finish = last.finish :=
  trials_of_attempt h

namespace Trials
variable {before : List Trial} {last : Trial}

theorem numbers (h : s.Trials handler delay left number start before last) :
    (before ++ [last]).map Trial.number = List.range' number (before.length + 1) := by
  induction h with
  | succeeded | failed => rfl
  | retried _ _ ih => exact congrArg (_ :: ·) ih

theorem number_last (h : s.Trials handler delay left number start before last) :
    last.number = number + before.length := by
  induction h with
  | succeeded | failed => rfl
  | retried _ _ ih =>
    rw [ih, List.length_cons]
    omega

theorem length_lt (h : s.Trials handler delay left number start before last) :
    before.length < left := by
  induction h with
  | succeeded | failed => exact Nat.succ_pos _
  | retried _ _ ih => exact Nat.succ_lt_succ ih

/-- The last attempt failed only if no other was left. -/
theorem decides (h : s.Trials handler delay left number start before last) :
    (∃ output, last.answer = .ok output) ∨
      before.length + 1 = left ∧ ∃ failure, last.answer = .error failure := by
  induction h with
  | succeeded => exact Or.inl ⟨_, rfl⟩
  | failed => exact Or.inr ⟨rfl, _, rfl⟩
  | retried _ _ ih => exact ih.imp_right fun h => ⟨congrArg Nat.succ h.1, h.2⟩

theorem failed_before (h : s.Trials handler delay left number start before last) :
    ∀ t ∈ before, ∃ failure, t.answer = .error failure := by
  induction h with
  | succeeded | failed => simp
  | retried _ _ ih => exact List.forall_mem_cons.mpr ⟨⟨_, rfl⟩, ih⟩

theorem ending_of_mem (h : s.Trials handler delay left number start before last) :
    ∀ t ∈ before ++ [last],
      s.ending? t.start (handler t.start t.number) = some (t.finish, t.answer) := by
  induction h with
  | succeeded ending | failed ending => exact List.forall_mem_singleton.mpr ending
  | retried ending _ ih => exact List.forall_mem_cons.mpr ⟨ending, ih⟩

/-- The attempts that are reached are those that there are. -/
theorem exists_of_begins? (h : s.Trials handler delay left number start before last)
    {ahead time : Nat} (hahead : ahead < left)
    (hbegins : s.begins? handler delay ahead number start = some time) :
    ∃ t ∈ before ++ [last], t.number = number + ahead ∧ t.start = time := by
  induction h generalizing ahead with
  | succeeded ending =>
    cases ahead with
    | zero => exact ⟨_, List.mem_singleton_self _, rfl, Option.some.inj hbegins⟩
    | succ ahead =>
      rw [begins?_succ_of_ok ending] at hbegins
      cases hbegins
  | failed ending =>
    obtain rfl : ahead = 0 := by omega
    exact ⟨_, List.mem_singleton_self _, rfl, Option.some.inj hbegins⟩
  | retried ending _ ih =>
    cases ahead with
    | zero => exact ⟨_, List.mem_cons_self, rfl, Option.some.inj hbegins⟩
    | succ ahead =>
      rw [begins?_succ ending] at hbegins
      obtain ⟨t, ht, hnumber, hstart⟩ := ih (Nat.lt_of_succ_lt_succ hahead) hbegins
      exact ⟨t, List.mem_cons_of_mem _ ht, by omega, hstart⟩

theorem begins?_of_mem (h : s.Trials handler delay left number start before last) :
    ∀ t ∈ before ++ [last], ∃ ahead, ahead < left ∧ t.number = number + ahead ∧
      s.begins? handler delay ahead number start = some t.start := by
  induction h with
  | succeeded | failed =>
    exact List.forall_mem_singleton.mpr ⟨0, Nat.succ_pos _, rfl, rfl⟩
  | retried ending _ ih =>
    refine List.forall_mem_cons.mpr ⟨⟨0, Nat.succ_pos _, rfl, rfl⟩, fun t ht => ?_⟩
    obtain ⟨ahead, hahead, hnumber, hbegins⟩ := ih t ht
    exact ⟨ahead + 1, Nat.succ_lt_succ hahead, by omega, (begins?_succ ending _).trans hbegins⟩

/-! ### When they are made -/

theorem le_finish (h : s.Trials handler delay left number start before last) :
    start ≤ last.finish := by
  induction h with
  | succeeded ending | failed ending => exact le_of_ending? ending
  | retried ending _ ih =>
    have hle := le_of_ending? ending
    omega

theorem le_start (h : s.Trials handler delay left number start before last) :
    ∀ t ∈ before ++ [last], start ≤ t.start := by
  induction h with
  | succeeded | failed => exact List.forall_mem_singleton.mpr le_rfl
  | retried ending _ ih =>
    have hle := le_of_ending? ending
    exact List.forall_mem_cons.mpr ⟨le_rfl, fun t ht => by have := ih t ht; omega⟩

/-- The first attempt is made at once, each other one after the delay behind the one before it. -/
theorem pauses (h : s.Trials handler delay left number start before last) :
    (before ++ [last]).head?.map Trial.start = some start ∧
      (before ++ [last]).IsChain fun t next => next.start = t.finish + delay := by
  induction h with
  | succeeded | failed => exact ⟨rfl, .singleton _⟩
  | @retried _ _ _ _ _ before last _ _ ih =>
    refine ⟨rfl, ih.2.cons fun t ht => ?_⟩
    have hstart := ih.1
    rw [show (before ++ [last]).head? = some t from ht] at hstart
    exact Option.some.inj hstart

theorem attempt_eq (h : s.Trials handler delay left number start before last)
    (hclock : last.finish ≤ clock) : s.attempt handler delay began clock left number start =
      ⟨(before ++ [last]).map (Trial.call s.name),
        .finished (last.outcome s.name began) last.finish⟩ := by
  induction h with
  | succeeded ending => exact attempt_of_ok ending hclock
  | failed ending => exact attempt_of_last_error ending hclock
  | retried ending rest ih =>
    have hle := rest.le_finish
    rw [attempt_of_error ending (by omega), ih hclock]
    rfl

theorem run_eq (h : s.Trials handler delay s.maxAttempts 1 start before last)
    (hclock : last.finish ≤ clock) : s.run handler delay clock start =
      ⟨(before ++ [last]).map (Trial.call s.name),
        .finished (last.outcome s.name start) last.finish⟩ :=
  h.attempt_eq hclock

/-- As long as the first attempt goes on it is the only one. -/
theorem calls_attempt_of_lt {answer : Except Failure Json} {later : List Trial}
    (hending : s.ending? start (handler start number) = some (finish, answer))
    (hclock : clock < finish) (hlater : ∀ t ∈ later, finish ≤ t.start) :
    (s.attempt handler delay began clock (left + 1) number start).calls =
      ((⟨number, start, finish, answer⟩ :: later).filter (·.start ≤ clock)).map
        (Trial.call s.name) := by
  have hnone : later.filter (·.start ≤ clock) = [] := by
    refine List.filter_eq_nil_iff.mpr fun t ht => ?_
    have hle := hlater t ht
    rw [decide_eq_true_iff]
    omega
  rw [List.filter_cons, hnone]
  rcases Nat.lt_or_ge clock start with hbefore | hstart
  · rw [attempt_of_lt hbefore, if_neg (by simpa using hbefore)]
    rfl
  · rw [attempt_of_going hstart hending hclock, if_pos (by simpa using hstart)]
    rfl

/-- By a time the attempts have been made that begin by then. -/
theorem calls_attempt (h : s.Trials handler delay left number start before last) :
    (s.attempt handler delay began clock left number start).calls =
      ((before ++ [last]).filter (·.start ≤ clock)).map (Trial.call s.name) := by
  induction h with
  | succeeded ending =>
    have hle := le_of_ending? ending
    rcases Nat.lt_or_ge clock _ with hgoing | hended
    · exact calls_attempt_of_lt ending hgoing (by simp)
    · rw [attempt_of_ok ending hended, List.nil_append,
        List.filter_cons_of_pos (by simpa using hle.trans hended)]
      rfl
  | failed ending =>
    have hle := le_of_ending? ending
    rcases Nat.lt_or_ge clock _ with hgoing | hended
    · exact calls_attempt_of_lt ending hgoing (by simp)
    · rw [attempt_of_last_error ending hended, List.nil_append,
        List.filter_cons_of_pos (by simpa using hle.trans hended)]
      rfl
  | retried ending rest ih =>
    have hle := le_of_ending? ending
    rcases Nat.lt_or_ge clock _ with hgoing | hended
    · exact calls_attempt_of_lt ending hgoing fun t ht =>
        (Nat.le_add_right _ _).trans (rest.le_start t ht)
    · rw [attempt_of_error ending hended, List.cons_append,
        List.filter_cons_of_pos (by simpa using hle.trans hended), List.map_cons, ← ih]
      rfl

end Trials

end Step

end MediaCatalog.Workflow
