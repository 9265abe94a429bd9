import MediaCatalog.Workflow.Order

/-!
One run of a workflow. Steps are taken in execution order; a step whose dependency did not succeed
is not started. How far a run has come is a function of the clock, in milliseconds.
-/

namespace MediaCatalog.Workflow

/-- What one attempt comes to: its length, none if it never ends, and its answer then. -/
structure Attempt where
  length : Option Nat
  answer : Except Failure Json

/-- What a step does, by the start and the number of the attempt, which counts from one. -/
abbrev Handler := (start number : Nat) → Attempt

inductive Status where
  | succeeded
  | failed
  | timedOut
  | blocked
  deriving DecidableEq, Repr

def Status.name : Status → String
  | .succeeded => "succeeded"
  | .failed => "failed"
  | .timedOut => "timed_out"
  | .blocked => "upstream_failed"

/-- What became of one step. A step that was not started has no attempts. -/
structure Outcome where
  step : String
  status : Status
  attempts : Nat
  output : Option Json
  error : Option String
  startedAt : Option Nat
  finishedAt : Option Nat
  deriving DecidableEq

/-- One attempt as a handler sees it. -/
structure Call where
  step : String
  attempt : Nat
  time : Nat
  deriving DecidableEq, Repr

/-- Where something stands: at its end, or busy until a time, none if nothing in sight ends it. -/
inductive Standing (α : Type) where
  | finished (value : α) (time : Nat)
  | busy (wake : Option Nat)

/-- The calls made so far, and where it stands. -/
structure Progress (α : Type) where
  calls : List Call
  standing : Standing α

def Progress.after {α : Type} (calls : List Call) (p : Progress α) : Progress α :=
  ⟨calls ++ p.calls, p.standing⟩

namespace Outcome

def succeeded (step : String) (attempts : Nat) (output : Json) (start finish : Nat) : Outcome :=
  ⟨step, .succeeded, attempts, some output, none, some start, some finish⟩

/-- The last failure of a step decides whether it timed out. -/
def failed (step : String) (attempts : Nat) (failure : Failure) (start finish : Nat) : Outcome :=
  ⟨step, if failure.isTimeout then .timedOut else .failed, attempts, none, some failure.message,
    some start, some finish⟩

def blocked (step dependency : String) : Outcome :=
  ⟨step, .blocked, 0, none, some s!"upstream step '{dependency}' did not succeed", none,
    none⟩

def isSuccess (o : Outcome) : Bool :=
  o.status == .succeeded

end Outcome

namespace Step

/-- When an attempt ends and with what. One that takes longer than the limit ends at the limit. -/
def ending? (s : Step) (start : Nat) (a : Attempt) : Option (Nat × Except Failure Json) :=
  match s.timeout, a.length with
  | none, none => none
  | none, some length => some (start + length, a.answer)
  | some limit, none => some (start + limit, .error (.stepTimeout s.name limit))
  | some limit, some length =>
    if length ≤ limit then some (start + length, a.answer)
    else some (start + limit, .error (.stepTimeout s.name limit))

/--
Attempts a step until the given time: `left` attempts are left, the next has a number and a time.
A failed attempt is followed by the next one after the delay.
-/
def attempt (s : Step) (handler : Handler) (delay began clock : Nat) :
    (left number start : Nat) → Progress Outcome
  | 0, _, _ => ⟨[], .busy none⟩
  | left + 1, number, start =>
    if clock < start then ⟨[], .busy (some start)⟩
    else
      let call : Call := ⟨s.name, number, start⟩
      match s.ending? start (handler start number) with
      | none => ⟨[call], .busy none⟩
      | some (finish, answer) =>
        if clock < finish then ⟨[call], .busy (some finish)⟩
        else
          match answer, left with
          | .ok output, _ =>
            ⟨[call], .finished (.succeeded s.name number output began finish) finish⟩
          | .error failure, 0 =>
            ⟨[call], .finished (.failed s.name number failure began finish) finish⟩
          | .error _, left + 1 =>
            (s.attempt handler delay began clock (left + 1) (number + 1) (finish + delay)).after
              [call]

/-- A step that starts at a time, seen at another. -/
def run (s : Step) (handler : Handler) (delay clock start : Nat) : Progress Outcome :=
  s.attempt handler delay start clock s.maxAttempts 1 start

/-- The first dependency that has not succeeded. -/
def blockedBy? (s : Step) (done : List Outcome) : Option String :=
  s.dependencies.find? fun dependency =>
    !done.any fun o => o.step == dependency && o.isSuccess

end Step

/-- Takes jobs one after the other from a time on; each outcome is added to those before it. -/
def runJobs (delay clock : Nat) : List (Step × Handler) → (done : List Outcome) → (start : Nat) →
    Progress (List Outcome)
  | [], done, start => ⟨[], .finished done start⟩
  | (s, handler) :: rest, done, start =>
    match s.blockedBy? done with
    | some dependency =>
      runJobs delay clock rest (done ++ [.blocked s.name dependency]) start
    | none =>
      match s.run handler delay clock start with
      | ⟨calls, .finished outcome finish⟩ =>
        (runJobs delay clock rest (done ++ [outcome]) finish).after calls
      | ⟨calls, .busy wake⟩ => ⟨calls, .busy wake⟩

/-- Steps with what is found under their names; the first without anything is refused. -/
def assign {α : Type} (found : String → Option α) : List Step → Except Failure (List (Step × α))
  | [] => .ok []
  | s :: rest =>
    match found s.name with
    | none => .error (.missingHandler s.name)
    | some a =>
      match assign found rest with
      | .ok jobs => .ok ((s, a) :: jobs)
      | .error failure => .error failure

/-- What a run that has ended leaves. -/
structure Report where
  workflow : String
  steps : List Outcome
  deriving DecidableEq

namespace Report

def succeeded (r : Report) : Bool :=
  r.steps.all Outcome.isSuccess

def outcome? (step : String) (r : Report) : Option Outcome :=
  r.steps.find? (·.step == step)

end Report

end MediaCatalog.Workflow
