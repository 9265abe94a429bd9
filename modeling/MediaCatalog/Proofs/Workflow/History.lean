import MediaCatalog.Workflow.Runner

/-!
# Histories of a runner — every operation is a sequence of indivisible changes

A start, a completion and a cancellation each change the runs and the slots of a runner in one
piece, and so does all that happens between them. `Change` lists these pieces and the events they
bring. An operation is a sequence of them (`perform_performs`), so what every change keeps holds at
any time, also between the changes that one operation makes.
-/

namespace MediaCatalog.Workflow

/-! ## 1. Events and changes -/

/-- What can happen to a run. -/
inductive Event where
  | accepted (ticket : Nat) (plan : Plan)
  | refused (ticket : Nat) (failure : Failure)
  | finished (ticket : Nat) (calls : List Call) (report : Report)
  /-- The run was dropped where it waited. -/
  | cancelled (ticket : Nat) (workflow : String)

namespace Event

def ticket : Event → Nat
  | accepted ticket _ | refused ticket _ | finished ticket _ _ | cancelled ticket _ => ticket

/-- The workflow of a run that was let in. -/
def workflow? : Event → Option String
  | accepted _ plan => some plan.definition.id
  | refused _ _ => none
  | finished _ _ report => some report.workflow
  | cancelled _ workflow => some workflow

def isFinish : Event → Bool
  | finished _ _ _ => true
  | _ => false

end Event

namespace Runner

/-- Lets a run in: it takes the next ticket and a slot of its workflow. -/
def accept (p : Plan) (jobs : List (Step × Worker)) (r : Runner) : Runner :=
  { r with
    tickets := r.tickets + 1
    slots := r.slots.increase p.definition.id
    live := r.live ++
      [{ ticket := r.tickets, workflow := p.definition.id, jobs, start := r.clock }] }

/-- Refuses a run: it takes the next ticket and has ended. -/
def refuse (failure : Failure) (r : Runner) : Runner :=
  { r with
    tickets := r.tickets + 1
    ended := r.ended ++ [⟨r.tickets, .error failure, false⟩] }

/-- One indivisible change of a runner, with the event that it brings. -/
inductive Change : Runner → List Event → Runner → Prop where
  | accept {r : Runner} {p : Plan} {jobs : List (Step × Worker)} (enter : r.enter p = .ok jobs) :
    Change r [.accepted r.tickets p] (r.accept p jobs)
  | refuse {r : Runner} {p : Plan} {failure : Failure} (enter : r.enter p = .error failure) :
    Change r [.refused r.tickets failure] (r.refuse failure)
  | finish {r : Runner} {run : LiveRun} {calls : List Call} {outcomes : List Outcome} {time : Nat}
      (live : run ∈ r.live)
      (ended : run.progress r.delay r.clock = ⟨calls, .finished outcomes time⟩) :
    Change r [.finished run.ticket calls ⟨run.workflow, outcomes⟩]
      (r.finish { run with calls } outcomes)
  | cancel {r : Runner} {run : LiveRun} (live : run ∈ r.live) :
    Change r [.cancelled run.ticket run.workflow] (r.drop run)
  /-- A run makes calls or is let through a gate. -/
  | proceed {r : Runner} {run : LiveRun} (live : run ∈ r.live) (passages : List Passage)
      (calls : List Call) :
    Change r [] (r.replace { run with passages, calls })
  /-- Neither runs nor slots are concerned. -/
  | aside {r : Runner} (clock : Nat) (permits : Tally) (queue : List (Nat × String))
      (log : List LogEntry) :
    Change r [] { r with clock, permits, queue, log }
  /-- Results that were handed out are forgotten. -/
  | forget {r : Runner} (keep : Ended → Bool) :
    Change r [] { r with ended := r.ended.filter keep }

/-- Changes one after the other, with all their events. -/
inductive Changes : Runner → List Event → Runner → Prop where
  | refl (r : Runner) : Changes r [] r
  | tail {r s t : Runner} {events more : List Event} (init : Changes r events s)
      (last : Change s more t) : Changes r (events ++ more) t

/-- What has happened to a runner since it was made. -/
def History (delay : Nat) (events : List Event) (r : Runner) : Prop :=
  Changes { delay } events r

namespace Changes

theorem single {r s : Runner} {events : List Event} (h : Change r events s) :
    Changes r events s :=
  (Changes.refl r).tail h

theorem trans {r s t : Runner} {events more : List Event} (h : Changes r events s)
    (h' : Changes s more t) : Changes r (events ++ more) t := by
  induction h' with
  | refl => rw [List.append_nil]; exact h
  | tail _ last ih => rw [← List.append_assoc]; exact ih.tail last

theorem delay_eq {r s : Runner} {events : List Event} (h : Changes r events s) :
    s.delay = r.delay := by
  induction h with
  | refl => rfl
  | tail _ last ih => cases last <;> exact ih

end Changes

/-! ## 2. What carries a run on only finishes runs -/

/-- Changes that let no run in, refuse none and cancel none. -/
def Settles (r s : Runner) : Prop :=
  ∃ events, Changes r events s ∧ ∀ e ∈ events, e.isFinish = true

namespace Settles

theorem refl (r : Runner) : r.Settles r :=
  ⟨[], .refl r, by simp⟩

theorem trans {r s t : Runner} (h : r.Settles s) (h' : s.Settles t) : r.Settles t := by
  obtain ⟨events, hchanges, hfinish⟩ := h
  obtain ⟨more, hchanges', hfinish'⟩ := h'
  refine ⟨events ++ more, hchanges.trans hchanges', fun e he => ?_⟩
  rcases List.mem_append.mp he with he | he
  · exact hfinish e he
  · exact hfinish' e he

theorem of_silent {r s : Runner} (h : Change r [] s) : r.Settles s :=
  ⟨[], .single h, by simp⟩

theorem aside (r : Runner) (clock : Nat) (permits : Tally) (queue : List (Nat × String))
    (log : List LogEntry) : r.Settles { r with clock, permits, queue, log } :=
  of_silent (.aside clock permits queue log)

theorem proceed {r : Runner} {run : LiveRun} (live : run ∈ r.live) (passages : List Passage)
    (calls : List Call) : r.Settles (r.replace { run with passages, calls }) :=
  of_silent (.proceed live passages calls)

theorem finish {r : Runner} {run : LiveRun} {calls : List Call} {outcomes : List Outcome}
    {time : Nat} (live : run ∈ r.live)
    (ended : run.progress r.delay r.clock = ⟨calls, .finished outcomes time⟩) :
    r.Settles (r.finish { run with calls } outcomes) :=
  ⟨_, .single (.finish live ended), by simp [Event.isFinish]⟩

end Settles

/-- What time and permits bring: runs proceed or end, and no result is forgotten. -/
inductive Onward : Runner → Runner → Prop where
  | refl (r : Runner) : Onward r r
  | aside {r s : Runner} (init : Onward r s) (clock : Nat) (permits : Tally)
      (queue : List (Nat × String)) (log : List LogEntry) :
    Onward r { s with clock, permits, queue, log }
  | proceed {r s : Runner} {run : LiveRun} (init : Onward r s) (live : run ∈ s.live)
      (passages : List Passage) (calls : List Call) :
    Onward r (s.replace { run with passages, calls })
  | finish {r s : Runner} {run : LiveRun} {calls : List Call} {outcomes : List Outcome}
      {time : Nat} (init : Onward r s) (live : run ∈ s.live)
      (ended : run.progress s.delay s.clock = ⟨calls, .finished outcomes time⟩) :
    Onward r (s.finish { run with calls } outcomes)

namespace Onward

theorem trans {r s t : Runner} (h : r.Onward s) (h' : s.Onward t) : r.Onward t := by
  induction h' with
  | refl => exact h
  | aside _ clock permits queue log ih => exact ih.aside clock permits queue log
  | proceed _ live passages calls ih => exact ih.proceed live passages calls
  | finish _ live ended ih => exact ih.finish live ended

theorem settles {r s : Runner} (h : r.Onward s) : r.Settles s := by
  induction h with
  | refl => exact .refl r
  | aside _ clock permits queue log ih => exact ih.trans (.aside _ clock permits queue log)
  | proceed _ live passages calls ih => exact ih.trans (.proceed live passages calls)
  | finish _ live ended ih => exact ih.trans (.finish live ended)

end Onward

theorem mem_of_find? {r : Runner} {ticket : Nat} {run : LiveRun} (h : r.find? ticket = some run) :
    run ∈ r.live ∧ run.ticket = ticket := by
  have hticket := List.find?_some h
  exact ⟨List.mem_of_find?_eq_some h, beq_iff_eq.mp hticket⟩

theorem mem_replace {r : Runner} {run run' : LiveRun} (live : run ∈ r.live)
    (hticket : run.ticket = run'.ticket) : run' ∈ (r.replace run').live :=
  List.mem_map.mpr ⟨run, live, if_pos hticket⟩

theorem onward_leave {run : LiveRun} {r : Runner} (live : run ∈ r.live) :
    r.Onward (r.leave run (run.progress r.delay r.clock)) := by
  unfold leave
  dsimp only
  split
  next outcomes time hstanding => exact (Onward.refl r).finish live (by rw [← hstanding])
  next =>
    split
    next => exact (Onward.refl r).proceed live _ _
    next => exact ((Onward.refl r).proceed live _ _).aside _ _ _ _

theorem onward_drive (fuel : Nat) {run : LiveRun} {r : Runner} (live : run ∈ r.live) :
    r.Onward (drive fuel run r) := by
  induction fuel generalizing run r with
  | zero => exact .refl r
  | succ fuel ih =>
    rw [drive]
    split
    next call gate _ =>
      -- The run is let through a gate and takes its next turn in the new state.
      have hpassed := ((Onward.refl r).proceed live (run.pass r.clock call).passages run.calls).aside
        r.clock (r.permits.decrease gate) r.queue r.log
      exact hpassed.trans (ih (mem_replace live rfl))
    next =>
      -- To note calls changes neither the clock nor how far the run has come.
      have hnoted : r.Onward (r.note run (run.progress r.delay r.clock).calls) :=
        (Onward.refl r).aside r.clock r.permits r.queue _
      exact hnoted.trans (onward_leave live)

theorem onward_carryOn (ticket : Nat) (r : Runner) : r.Onward (r.carryOn ticket) := by
  unfold carryOn
  split
  next => exact .refl r
  next run hfind =>
    have hunqueued := (Onward.refl r).aside r.clock r.permits
      (r.queue.filter (·.1 != ticket)) r.log
    exact hunqueued.trans (onward_drive _ (mem_of_find? hfind).1)

theorem onward_foldl_carryOn (runs : List LiveRun) (r : Runner) :
    r.Onward (runs.foldl (fun r run => r.carryOn run.ticket) r) := by
  induction runs generalizing r with
  | nil => exact .refl r
  | cons run runs ih => exact (onward_carryOn run.ticket r).trans (ih _)

theorem onward_wakeAt (time : Nat) (r : Runner) : r.Onward (r.wakeAt time) := by
  let due := r.live.filter fun run => (r.wake? run).any (· ≤ time)
  have hwoken := ((Onward.refl r).aside time r.permits r.queue r.log).trans
    (onward_foldl_carryOn due { r with clock := time })
  exact hwoken.aside time _ _ _

theorem onward_advanceTo (time : Nat) (r : Runner) : r.Onward (r.advanceTo time) := by
  fun_induction advanceTo time r with
  | case1 r _ => exact (Onward.refl r).aside time r.permits r.queue r.log
  | case2 r next _ _ ih => exact (onward_wakeAt next r).trans ih
  | case3 r next _ _ => exact (Onward.refl r).aside time r.permits r.queue r.log

theorem onward_awaitRun (ticket wakes : Nat) (r : Runner) : r.Onward (r.awaitRun ticket wakes) := by
  induction wakes generalizing r with
  | zero => exact .refl r
  | succ wakes ih =>
    rw [awaitRun]
    split
    next next _ _ => exact (onward_wakeAt next r).trans (ih _)
    next => exact .refl r

theorem onward_release (gate : String) (r : Runner) : r.Onward (r.release gate) := by
  unfold release
  split
  next => exact (Onward.refl r).aside r.clock _ r.queue r.log
  next ticket _ _ =>
    split
    next => exact (Onward.refl r).aside r.clock _ r.queue r.log
    next run hrun =>
      refine Onward.trans ?_ (onward_carryOn ticket _)
      obtain ⟨old, hfind, hpass⟩ := Option.bind_eq_some_iff.mp hrun
      obtain ⟨waiting, -, rfl⟩ := Option.map_eq_some_iff.mp hpass
      exact (Onward.refl r).proceed (mem_of_find? hfind).1 _ _

theorem settles_poll (ticket : Nat) (r : Runner) : r.Settles (r.poll ticket).1 := by
  unfold poll
  split
  next => exact .of_silent (.forget _)
  next => exact .refl r

/-! ## 3. Operations -/

/-- What can be asked of a runner. -/
inductive Operation where
  | start (p : Plan)
  | run (p : Plan)
  | cancel (ticket : Nat)
  | poll (ticket : Nat)
  | release (gate : String)
  | advance (milliseconds : Nat)
  | takeLog

def perform (r : Runner) : Operation → Runner
  | .start p => (r.start p).1
  | .run p => (r.run p).1
  | .cancel ticket => r.cancel ticket
  | .poll ticket => (r.poll ticket).1
  | .release gate => r.release gate
  | .advance milliseconds => r.advance milliseconds
  | .takeLog => r.takeLog.1

theorem start_eq_of_enter_error {p : Plan} {r : Runner} {failure : Failure}
    (h : r.enter p = .error failure) : r.start p = (r.refuse failure, r.tickets) := by
  have henter : { r with tickets := r.tickets + 1 }.enter p = .error failure := h
  unfold start
  simp only [henter]
  rfl

theorem start_eq_of_enter_ok {p : Plan} {r : Runner} {jobs : List (Step × Worker)}
    (h : r.enter p = .ok jobs) : r.start p = ((r.accept p jobs).carryOn r.tickets, r.tickets) := by
  have henter : { r with tickets := r.tickets + 1 }.enter p = .ok jobs := h
  unfold start
  simp only [henter]
  rfl

/-- The event that an operation brings by itself. -/
def Operation.opening (r : Runner) : Operation → List Event
  | .start p | .run p =>
    match r.enter p with
    | .ok _ => [.accepted r.tickets p]
    | .error failure => [.refused r.tickets failure]
  | .cancel ticket =>
    match r.find? ticket with
    | some waiting => [.cancelled waiting.ticket waiting.workflow]
    | none => []
  | .poll _ | .release _ | .advance _ | .takeLog => []

/-- The operation is its own event, if it brings one, and then the end of some runs. -/
def Performs (r : Runner) (op : Operation) (s : Runner) : Prop :=
  ∃ finishes, Changes r (op.opening r ++ finishes) s ∧ ∀ e ∈ finishes, e.isFinish = true

theorem Performs.settle {r s t : Runner} {op : Operation} (h : r.Performs op s)
    (h' : s.Settles t) : r.Performs op t := by
  obtain ⟨finishes, hchanges, hfinish⟩ := h
  obtain ⟨more, hmore, hfinish'⟩ := h'
  refine ⟨finishes ++ more, ?_, fun e he => ?_⟩
  · rw [← List.append_assoc]
    exact hchanges.trans hmore
  · rcases List.mem_append.mp he with he | he
    · exact hfinish e he
    · exact hfinish' e he

theorem start_performs (p : Plan) (r : Runner) : r.Performs (.start p) (r.start p).1 := by
  cases henter : r.enter p with
  | error failure =>
    rw [start_eq_of_enter_error henter]
    refine ⟨[], ?_, by simp⟩
    rw [Operation.opening, henter]
    exact .single (.refuse henter)
  | ok jobs =>
    rw [start_eq_of_enter_ok henter]
    have haccept : r.Performs (.start p) (r.accept p jobs) := by
      refine ⟨[], ?_, by simp⟩
      rw [Operation.opening, henter]
      exact .single (.accept henter)
    exact haccept.settle (onward_carryOn r.tickets _).settles

theorem cancel_performs (ticket : Nat) (r : Runner) :
    r.Performs (.cancel ticket) (r.cancel ticket) := by
  refine ⟨[], ?_, by simp⟩
  unfold cancel
  rw [Operation.opening]
  cases hfind : r.find? ticket with
  | some run => exact .single (.cancel (mem_of_find? hfind).1)
  | none => exact .single (.forget _)

/-- Every operation is a sequence of changes. -/
theorem perform_performs (r : Runner) (op : Operation) : r.Performs op (r.perform op) := by
  have hidle : op.opening r = [] → r.Performs op r := fun hnil =>
    ⟨[], by rw [hnil]; exact .refl r, by simp⟩
  cases op with
  | start p => exact start_performs p r
  | run p =>
    have hstart : r.Performs (.run p) (r.start p).1 := start_performs p r
    exact (hstart.settle (onward_awaitRun _ _ _).settles).settle (settles_poll _ _)
  | cancel ticket => exact cancel_performs ticket r
  | poll ticket => exact (hidle rfl).settle (settles_poll ticket r)
  | release gate => exact (hidle rfl).settle (onward_release gate r).settles
  | advance milliseconds => exact (hidle rfl).settle (onward_advanceTo _ r).settles
  | takeLog => exact (hidle rfl).settle (.aside r r.clock r.permits r.queue [])

end Runner

end MediaCatalog.Workflow
