import MediaCatalog.Workflow.Run
import MediaCatalog.Workflow.Tally

/-!
A runner: runs that go on side by side under one clock, each with a slot of its workflow. Attempts
may wait at gates; a gate lets one attempt through for each permit, in the order of their arrival.
-/

namespace MediaCatalog.Workflow

/-- An attempt waits at its gate, works for some time, none if for ever, and answers. -/
structure Work where
  gate : Option String := none
  length : Option Nat := some 0
  answer : Except Failure Json

/-- The work of a step by the number of the attempt. -/
abbrev Worker := (number : Nat) → Work

/-- An attempt that was let through its gate, and when. -/
structure Passage where
  step : String
  attempt : Nat
  time : Nat
  deriving DecidableEq, Repr

/-- An attempt is as long as its wait and its work; without a passage it waits on. -/
def Worker.handler (worker : Worker) (step : String) (passages : List Passage) : Handler :=
  fun start number =>
    let work := worker number
    match work.gate with
    | none => ⟨work.length, work.answer⟩
    | some _ =>
      match passages.find? fun p => p.step == step && p.attempt == number with
      | none => ⟨none, work.answer⟩
      | some p => ⟨work.length.map (p.time - start + ·), work.answer⟩

/-- A definition with the work of its steps. -/
structure Plan where
  definition : Definition
  workers : List (String × Worker)

/-- Steps in execution order with their work, or why the plan cannot start whatever else runs. -/
def Plan.jobs (p : Plan) : Except Failure (List (Step × Worker)) :=
  match p.definition.executionOrder with
  | .error failure => .error failure
  | .ok order => assign (fun name => p.workers.lookup name) order

/-- A run that was let in and has not ended. -/
structure LiveRun where
  ticket : Nat
  workflow : String
  jobs : List (Step × Worker)
  start : Nat
  passages : List Passage := []
  /-- The calls made so far. -/
  calls : List Call := []

namespace LiveRun

def progress (delay clock : Nat) (r : LiveRun) : Progress (List Outcome) :=
  runJobs delay clock (r.jobs.map fun (s, worker) => (s, worker.handler s.name r.passages)) []
    r.start

/-- The gate of an attempt, if it has not been let through. -/
def closedGate? (call : Call) (r : LiveRun) : Option String :=
  match r.jobs.find? (·.1.name == call.step) with
  | none => none
  | some (_, worker) =>
    if r.passages.any fun p => p.step == call.step && p.attempt == call.attempt then none
    else (worker call.attempt).gate

/-- Whether an attempt that is not let through has come to its time limit. -/
def isOver (clock : Nat) (call : Call) (r : LiveRun) : Bool :=
  (r.jobs.find? (·.1.name == call.step)).any fun (s, _) =>
    s.timeout.any fun limit => call.time + limit ≤ clock

/-- The call that waits at a gate, and the gate. -/
def waiting? (clock : Nat) (r : LiveRun) : Option (Call × String) :=
  match r.calls.getLast? with
  | none => none
  | some call =>
    if r.isOver clock call then none else (r.closedGate? call).map (call, ·)

/-- The first call that is new and comes to a gate with a permit, and the gate. -/
def arrival? (permits : Tally) (calls : List Call) (r : LiveRun) : Option (Call × String) :=
  (calls.drop r.calls.length).findSome? fun call =>
    (r.closedGate? call).bind fun gate =>
      if permits.count gate = 0 then none else some (call, gate)

/-- Lets the waiting attempt through. -/
def pass (clock : Nat) (call : Call) (r : LiveRun) : LiveRun :=
  { r with passages := r.passages ++ [⟨call.step, call.attempt, clock⟩] }

/-- More than the number of times at which the run can start or end an attempt. -/
def turns (r : LiveRun) : Nat :=
  (r.jobs.map fun (s, _) => 2 * s.maxAttempts).foldl (· + ·) 1

end LiveRun

/-- A run that has ended, or was not let in. -/
structure Ended where
  ticket : Nat
  result : Except Failure Report
  /-- Whether any handler was called. -/
  called : Bool

structure LogEntry where
  workflow : String
  call : Call
  deriving DecidableEq, Repr

structure Runner where
  /-- Milliseconds between a failed attempt and the next. -/
  delay : Nat := 60000
  clock : Nat := 0
  tickets : Nat := 0
  /-- The recorded number of live runs of each workflow. -/
  slots : Tally := []
  /-- Permits that nobody has waited for. -/
  permits : Tally := []
  /-- Tickets of the runs that wait at gates, in the order of arrival. -/
  queue : List (Nat × String) := []
  live : List LiveRun := []
  ended : List Ended := []
  log : List LogEntry := []

namespace Runner

def find? (ticket : Nat) (r : Runner) : Option LiveRun :=
  r.live.find? (·.ticket == ticket)

/-- Puts a run in the place of the one with its ticket. -/
def replace (run : LiveRun) (r : Runner) : Runner :=
  { r with live := r.live.map fun other => if other.ticket = run.ticket then run else other }

/-- Takes a live run away and frees its slot. -/
def drop (run : LiveRun) (r : Runner) : Runner :=
  { r with
    live := r.live.filter (·.ticket != run.ticket)
    queue := r.queue.filter (·.1 != run.ticket)
    slots := r.slots.decrease run.workflow }

def finish (run : LiveRun) (outcomes : List Outcome) (r : Runner) : Runner :=
  let r := r.drop run
  { r with ended := r.ended ++ [⟨run.ticket, .ok ⟨run.workflow, outcomes⟩, !run.calls.isEmpty⟩] }

/-- Notes the calls that are new. -/
def note (run : LiveRun) (calls : List Call) (r : Runner) : Runner :=
  { r with log := r.log ++ (calls.drop run.calls.length).map fun call => ⟨run.workflow, call⟩ }

/-- Leaves a run as far as it has come: it has ended, or it goes on later. -/
def leave (run : LiveRun) (progress : Progress (List Outcome)) (r : Runner) : Runner :=
  let run := { run with calls := progress.calls }
  match progress.standing with
  | .finished outcomes _ => r.finish run outcomes
  | .busy _ =>
    match run.waiting? r.clock with
    | none => r.replace run
    | some (_, gate) => { r.replace run with queue := r.queue ++ [(run.ticket, gate)] }

/--
Carries a run on at the present time until it ends or waits. Who comes to a gate takes a permit if
there is one, before any time limit. The fuel is more than the number of permits, of which each time
but the last takes one.
-/
def drive : (fuel : Nat) → LiveRun → Runner → Runner
  | 0, _, r => r
  | fuel + 1, run, r =>
    let progress := run.progress r.delay r.clock
    match run.arrival? r.permits progress.calls with
    | some (call, gate) =>
      drive fuel (run.pass r.clock call)
        { r.replace (run.pass r.clock call) with permits := r.permits.decrease gate }
    | none => (r.note run progress.calls).leave run progress

/-- Carries on a run that something has happened to; a wait that it was in is over. -/
def carryOn (ticket : Nat) (r : Runner) : Runner :=
  match r.find? ticket with
  | none => r
  | some run =>
    drive (r.permits.total + 1) run
      { r with queue := r.queue.filter (·.1 != ticket) }

/-! ### Operations -/

/-- The jobs of a plan, if its workflow has a slot left. -/
def enter (p : Plan) (r : Runner) : Except Failure (List (Step × Worker)) :=
  match p.jobs with
  | .error failure => .error failure
  | .ok jobs =>
    let active := r.slots.count p.definition.id
    if p.definition.maxActiveRuns.toNat ≤ active then
      .error (.tooManyActiveRuns p.definition.id active)
    else .ok jobs

/-- Starts a run and answers its ticket. One that is not let in has ended. -/
def start (p : Plan) (r : Runner) : Runner × Nat :=
  let ticket := r.tickets
  let r := { r with tickets := r.tickets + 1 }
  match r.enter p with
  | .error failure => ({ r with ended := r.ended ++ [⟨ticket, .error failure, false⟩] }, ticket)
  | .ok jobs =>
    let run : LiveRun := { ticket, workflow := p.definition.id, jobs, start := r.clock }
    let r := { r with
      slots := r.slots.increase p.definition.id
      live := r.live ++ [run] }
    (r.carryOn ticket, ticket)

/-- Takes a live run away, or forgets one that has ended. -/
def cancel (ticket : Nat) (r : Runner) : Runner :=
  match r.find? ticket with
  | some run => r.drop run
  | none => { r with ended := r.ended.filter (·.ticket != ticket) }

inductive Poll where
  | ended (e : Ended)
  | pending
  | unknown

/-- What has become of a run. One that has ended is forgotten. -/
def poll (ticket : Nat) (r : Runner) : Runner × Poll :=
  match r.ended.find? (·.ticket == ticket) with
  | some e => ({ r with ended := r.ended.filter (·.ticket != ticket) }, .ended e)
  | none => (r, if (r.find? ticket).isSome then .pending else .unknown)

/-- Adds a permit to a gate: the first who waits there takes it, or it stays. -/
def release (gate : String) (r : Runner) : Runner :=
  match r.queue.find? (·.2 == gate) with
  | none => { r with permits := r.permits.increase gate }
  | some (ticket, _) =>
    match (r.find? ticket).bind fun run =>
        (run.waiting? r.clock).map fun w => run.pass r.clock w.1 with
    | none => { r with permits := r.permits.increase gate }
    | some run => (r.replace run).carryOn ticket

/-- When a run goes on by itself. -/
def wake? (r : Runner) (run : LiveRun) : Option Nat :=
  match (run.progress r.delay r.clock).standing with
  | .busy wake => wake
  | .finished _ time => some time

/-- The next time at which a run goes on by itself. -/
def nextWake? (r : Runner) : Option Nat :=
  (r.live.filterMap r.wake?).min?

/-- Sets the clock and carries on the runs that were to go on then, in the order of their starts. -/
def wakeAt (time : Nat) (r : Runner) : Runner :=
  let due := r.live.filter fun run => (r.wake? run).any (· ≤ time)
  { due.foldl (fun r run => r.carryOn run.ticket) { r with clock := time } with clock := time }

/-- Lets the clock go to a time, from one wake to the next. -/
def advanceTo (time : Nat) (r : Runner) : Runner :=
  match r.nextWake? with
  | none => { r with clock := time }
  | some next =>
    if next ≤ time ∧ r.clock < next then advanceTo time (r.wakeAt next)
    else { r with clock := time }
termination_by time - r.clock
decreasing_by
  simp only [wakeAt]
  omega

def advance (milliseconds : Nat) (r : Runner) : Runner :=
  r.advanceTo (r.clock + milliseconds)

/-- Lets the clock go until a run has ended, for so many wakes at most. -/
def awaitRun (ticket : Nat) : (wakes : Nat) → Runner → Runner
  | 0, r => r
  | wakes + 1, r =>
    match r.find? ticket, r.nextWake? with
    | some _, some next => awaitRun ticket wakes (r.wakeAt next)
    | _, _ => r

/-- Starts a run, lets the clock go until it has ended, and tells what became of it. -/
def run (p : Plan) (r : Runner) : Runner × Poll :=
  let (r, ticket) := r.start p
  (r.awaitRun ticket ((r.live.map LiveRun.turns).foldl (· + ·) 0)).poll ticket

/-- The log since it was last taken. -/
def takeLog (r : Runner) : Runner × List LogEntry :=
  ({ r with log := [] }, r.log)

end Runner

end MediaCatalog.Workflow
