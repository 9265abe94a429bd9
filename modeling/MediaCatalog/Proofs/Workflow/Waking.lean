import Mathlib.Algebra.Order.BigOperators.Group.List
import Mathlib.Algebra.Order.Ring.Nat
import MediaCatalog.Proofs.Workflow.Clock
import MediaCatalog.Proofs.Workflow.Report
import MediaCatalog.Proofs.Workflow.Slots

/-!
# Waking — between operations every run is at rest, and each wake uses up a turn

When an operation is over, each live run is busy at the present time and its calls are noted
(`Runner.AtRest`). Runs have a limited number of turns left (`Runner.turnsLeft`); to let the clock
go to the next wake uses up one of them at least, so a run whose attempts all end has ended after
as many wakes (`find?_awaitRun`).
-/

namespace MediaCatalog.Workflow

/-! ## 1. One run -/

namespace LiveRun
variable {delay clock : Nat} {run : LiveRun}

/-- Steps with what their work comes to, as far as attempts were let through their gates. -/
def handled (run : LiveRun) : List (Step × Handler) :=
  run.jobs.map fun (s, worker) => (s, worker.handler s.name run.passages)

/-- The number of starts and ends of attempts up to the given time. -/
def moments (delay clock : Nat) (run : LiveRun) : Nat :=
  runMoments delay clock run.handled [] run.start

theorem course (delay clock : Nat) (run : LiveRun) :
    Course delay clock run.handled [] run.start (run.moments delay clock)
      (run.progress delay clock) :=
  Workflow.course delay clock run.handled [] run.start

/-- The run goes on at a later time or when it is let through a gate, and its calls are noted. -/
def IsAtRest (delay clock : Nat) (run : LiveRun) : Prop :=
  ∃ wake, run.progress delay clock = ⟨run.calls, .busy wake⟩

/--
The turns that a run has left by its noted calls. Calls that are not noted count for half a turn:
whether their attempts are over is not known before they have been let through their gates.
-/
def turnsLeft (delay clock : Nat) (run : LiveRun) : Nat :=
  run.turns - min (run.moments delay clock) (2 * run.calls.length + 1)

theorem turns_eq (run : LiveRun) :
    run.turns = 2 * (run.handled.map (·.1.maxAttempts)).sum + 1 := by
  have hfold : ∀ (jobs : List (Step × Worker)) (n : Nat),
      (jobs.map fun (s, _) => 2 * s.maxAttempts).foldl (· + ·) n =
        2 * (jobs.map (·.1.maxAttempts)).sum + n := by
    intro jobs
    induction jobs with
    | nil => intro n; simp
    | cons job jobs ih =>
      intro n
      rw [List.map_cons, List.foldl_cons, ih, List.map_cons, List.sum_cons]
      dsimp only
      omega
  rw [turns, hfold, handled, List.map_map]
  rfl

theorem moments_lt_turns (delay clock : Nat) (run : LiveRun) :
    run.moments delay clock < run.turns := by
  have hbounds := (run.course delay clock).bounds
  rw [turns_eq]
  omega

theorem turnsLeft_pos (delay clock : Nat) (run : LiveRun) : 0 < run.turnsLeft delay clock := by
  have hlt := run.moments_lt_turns delay clock
  unfold turnsLeft
  omega

/-- To note all calls leaves no more turns than before. -/
theorem turnsLeft_noted_le (delay clock : Nat) (run : LiveRun) :
    { run with calls := (run.progress delay clock).calls }.turnsLeft delay clock ≤
      run.turnsLeft delay clock := by
  have hbounds := (run.course delay clock).bounds
  have hturns : { run with calls := (run.progress delay clock).calls }.turns = run.turns := rfl
  have hmoments : { run with calls := (run.progress delay clock).calls }.moments delay clock =
      run.moments delay clock := rfl
  unfold turnsLeft
  rw [hturns, hmoments]
  dsimp only
  omega

section Rest
variable {time : Nat} (h : run.IsAtRest delay clock)
include h

theorem IsAtRest.later (hle : clock ≤ time)
    (hasleep : ∀ wake, (run.progress delay clock).standing = .busy (some wake) → time < wake) :
    run.IsAtRest delay time := by
  obtain ⟨wake, hprogress⟩ := h
  exact ⟨wake, ((run.course delay clock).later hle hasleep).eq.1.trans hprogress⟩

theorem IsAtRest.turnsLeft_lt {wake : Nat}
    (hbusy : (run.progress delay clock).standing = .busy (some wake)) (hwoken : wake ≤ time) :
    run.turnsLeft delay time < run.turnsLeft delay clock := by
  have hmoments : run.moments delay clock < run.moments delay time :=
    (run.course delay clock).lt_moments hbusy hwoken
  have hbounds := (run.course delay clock).bounds
  have hturns := run.moments_lt_turns delay clock
  obtain ⟨_, hprogress⟩ := h
  rw [hprogress] at hbounds
  unfold turnsLeft
  dsimp only at hbounds
  omega

theorem IsAtRest.turnsLeft_le (hle : clock ≤ time) :
    run.turnsLeft delay time ≤ run.turnsLeft delay clock := by
  by_cases hwoken : ∃ wake, (run.progress delay clock).standing = .busy (some wake) ∧ wake ≤ time
  · obtain ⟨wake, hbusy, hwoken⟩ := hwoken
    exact Nat.le_of_lt (h.turnsLeft_lt hbusy hwoken)
  · have hlater := (run.course delay clock).later hle fun wake hbusy =>
      Nat.lt_of_not_le fun hwoken' => hwoken ⟨wake, hbusy, hwoken'⟩
    have hmoments : run.moments delay time = run.moments delay clock := hlater.eq.2
    rw [turnsLeft, turnsLeft, hmoments]

end Rest

/-! ### Gates -/

theorem arrival?_eq_some {permits : Tally} {calls : List Call} {call : Call} {gate : String}
    (h : run.arrival? permits calls = some (call, gate)) :
    permits.count gate ≠ 0 ∧
      ∃ before after, calls = before ++ call :: after ∧ run.calls.length ≤ before.length := by
  unfold arrival? at h
  obtain ⟨before, call', after, hdrop, hfound, -⟩ := List.findSome?_eq_some_iff.mp h
  obtain ⟨gate', -, hpermit⟩ := Option.bind_eq_some_iff.mp hfound
  split at hpermit
  next => cases hpermit
  next hcount =>
    cases hpermit
    refine ⟨hcount, calls.take run.calls.length ++ before, after, ?_, ?_⟩
    · rw [List.append_assoc, ← hdrop, List.take_append_drop]
    · have hlength : (calls.drop run.calls.length).length ≠ 0 := by simp [hdrop]
      rw [List.length_drop] at hlength
      rw [List.length_append, List.length_take]
      omega

/-- To let an attempt through its gate changes what that attempt comes to and no other. -/
theorem differsAt_pass (clock : Nat) (call : Call) (run : LiveRun) :
    List.Forall₂ (DiffersAt call) run.handled (run.pass clock call).handled := by
  unfold handled
  rw [List.forall₂_map_left_iff, List.forall₂_map_right_iff]
  apply List.forall₂_same.mpr
  rintro ⟨s, worker⟩ -
  refine ⟨rfl, fun start number hne => ?_⟩
  have hother : (call.step == s.name && call.attempt == number) = false := by
    by_cases hname : s.name = call.step
    · simp [(hne hname).symm]
    · simp [Ne.symm hname]
  have hfind : (run.pass clock call).passages.find?
        (fun p => p.step == s.name && p.attempt == number) =
      run.passages.find? (fun p => p.step == s.name && p.attempt == number) := by
    simp [pass, List.find?_append, hother]
  dsimp only
  rw [Worker.handler, Worker.handler, hfind]

/-- A call that comes to an open gate is made again when it has been let through. -/
theorem turnsLeft_pass_le {permits : Tally} {call : Call} {gate : String}
    (hnames : (run.jobs.map (·.1.name)).Nodup)
    (h : run.arrival? permits (run.progress delay clock).calls = some (call, gate)) (time : Nat) :
    (run.pass time call).turnsLeft delay clock ≤ run.turnsLeft delay clock := by
  obtain ⟨-, before, after, hcalls, hlength⟩ := arrival?_eq_some h
  have hnodup : (run.handled.map (·.1.name)).Nodup := by
    rw [handled, List.map_map]
    exact hnames
  have hlt : before.length < ((run.pass time call).progress delay clock).calls.length :=
    (run.course delay clock).lt_calls hnodup (run.differsAt_pass time call) hcalls
  have hbounds := ((run.pass time call).course delay clock).bounds
  have hturns : (run.pass time call).turns = run.turns := rfl
  have hkept : (run.pass time call).calls = run.calls := rfl
  rw [turnsLeft, turnsLeft, hturns, hkept]
  omega

end LiveRun

/-! ## 2. What carries runs on leaves them at rest -/

theorem Tally.total_decrease_lt {name : String} {t : Tally} (h : t.count name ≠ 0) :
    (t.decrease name).total < t.total := by
  have hsum : ∀ n, (t.set name n).total + t.count name = t.total + n := by
    intro n
    simp only [Tally.total, ← List.sum_eq_foldl]
    induction t with
    | nil => exact absurd rfl h
    | cons entry rest ih =>
      obtain ⟨key, m⟩ := entry
      by_cases hname : name = key
      · simp [Tally.set, Tally.count, hname]
        omega
      · have hbeq : (name == key) = false := beq_false_of_ne hname
        have hcount : Tally.count name ((key, m) :: rest) = Tally.count name rest := by
          rw [Tally.count, Tally.count, List.lookup_cons, hbeq]
        rw [hcount] at h ⊢
        have hrest := ih h
        simp only [Tally.set, if_neg hname, List.map_cons, List.sum_cons]
        omega
  have hdecrease := hsum (t.count name - 1)
  unfold Tally.decrease
  omega

theorem Plan.nodup_names {p : Plan} {jobs : List (Step × Worker)} (h : p.jobs = .ok jobs) :
    (jobs.map (·.1.name)).Nodup := by
  obtain ⟨order, horder, hassign⟩ := Plan.jobs_eq_ok h
  obtain ⟨hvalid, hperm, -⟩ := Definition.executionOrder_eq_ok horder
  have hnames := ((Definition.isValid_iff _).mp hvalid).2.1
  have hnodup := (hperm.map Step.name).nodup_iff.mpr hnames
  rwa [← (assign_eq_ok hassign).1, List.map_map] at hnodup

namespace Runner

/-- The turns that all live runs have left. -/
def turnsLeft (r : Runner) : Nat :=
  (r.live.map (LiveRun.turnsLeft r.delay r.clock)).sum

/-- All live runs but those of the given tickets are at rest. -/
structure AtRestBut (tickets : List Nat) (r : Runner) : Prop where
  nodup : (r.live.map LiveRun.ticket).Nodup
  names : ∀ run ∈ r.live, (run.jobs.map (·.1.name)).Nodup
  rest : ∀ run ∈ r.live, run.ticket ∈ tickets ∨ run.IsAtRest r.delay r.clock

/-- All live runs are at rest. -/
abbrev AtRest (r : Runner) : Prop :=
  r.AtRestBut []

/-- At one time, runs are brought to rest without more turns. -/
structure Rests (tickets : List Nat) (r s : Runner) : Prop where
  delay : s.delay = r.delay
  clock : s.clock = r.clock
  rest : s.AtRestBut tickets
  turns : s.turnsLeft ≤ r.turnsLeft

variable {tickets : List Nat} {r s t : Runner} {run : LiveRun}

theorem Rests.trans {others : List Nat} (h : r.Rests others s) (h' : s.Rests tickets t) :
    r.Rests tickets t :=
  ⟨h'.delay.trans h.delay, h'.clock.trans h.clock, h'.rest, Nat.le_trans h'.turns h.turns⟩

theorem AtRestBut.mono {others : List Nat} (h : r.AtRestBut tickets) (hsub : tickets ⊆ others) :
    r.AtRestBut others :=
  ⟨h.nodup, h.names, fun run live => (h.rest run live).imp_left fun hticket => hsub hticket⟩

/-- Whatever does not concern runs and the clock leaves them as they are. -/
theorem AtRestBut.aside (h : r.AtRestBut tickets) (permits : Tally) (queue : List (Nat × String))
    (ended : List Ended) (log : List LogEntry) :
    r.Rests tickets { r with permits, queue, ended, log } :=
  ⟨rfl, rfl, ⟨h.nodup, h.names, h.rest⟩, Nat.le_refl _⟩

theorem AtRestBut.replace (h : r.AtRestBut (run.ticket :: tickets)) (live : run ∈ r.live)
    {run' : LiveRun} {others : List Nat} (hticket : run'.ticket = run.ticket)
    (hjobs : run'.jobs = run.jobs) (hsub : tickets ⊆ others)
    (hrest : run.ticket ∈ others ∨ run'.IsAtRest r.delay r.clock) :
    (r.replace run').AtRestBut others := by
  refine ⟨?_, ?_, ?_⟩
  · have htickets : (r.replace run').live.map LiveRun.ticket = r.live.map LiveRun.ticket := by
      rw [Runner.replace, List.map_map]
      apply List.map_congr_left
      intro other _
      rw [Function.comp_apply]
      split
      next heq => exact heq.symm
      next => rfl
    rw [htickets]
    exact h.nodup
  · refine List.forall_mem_map.mpr fun other hother => ?_
    split
    next => rw [hjobs]; exact h.names run live
    next => exact h.names other hother
  · refine List.forall_mem_map.mpr fun other hother => ?_
    split
    next => rw [hticket]; exact hrest
    next hne =>
      rcases h.rest other hother with hmem | hother
      · rcases List.mem_cons.mp hmem with heq | hmem
        · exact absurd (heq.trans hticket.symm) hne
        · exact Or.inl (hsub hmem)
      · exact Or.inr hother

theorem turnsLeft_replace_le (hnodup : (r.live.map LiveRun.ticket).Nodup) (live : run ∈ r.live)
    {run' : LiveRun} (hticket : run'.ticket = run.ticket)
    (hturns : run'.turnsLeft r.delay r.clock ≤ run.turnsLeft r.delay r.clock) :
    (r.replace run').turnsLeft ≤ r.turnsLeft := by
  unfold Runner.turnsLeft
  rw [Runner.replace, List.map_map]
  refine List.sum_le_sum fun other hother => ?_
  rw [Function.comp_apply]
  split
  next heq =>
    rw [List.inj_on_of_nodup_map hnodup hother live (heq.trans hticket)]
    exact hturns
  next => exact Nat.le_refl _

theorem AtRestBut.drop (h : r.AtRestBut (run.ticket :: tickets)) :
    r.Rests tickets (r.drop run) := by
  refine ⟨rfl, rfl, ⟨?_, ?_, ?_⟩, ?_⟩
  · exact h.nodup.sublist (List.filter_sublist.map _)
  · exact fun other hother => h.names other (List.mem_filter.mp hother).1
  · intro other hother
    obtain ⟨hmem, hne⟩ := List.mem_filter.mp hother
    rcases h.rest other hmem with hticket | hrest
    · exact Or.inl ((List.mem_cons.mp hticket).resolve_left (bne_iff_ne.mp hne))
    · exact Or.inr hrest
  · exact (List.filter_sublist.map _).sum_le_sum fun _ _ => Nat.zero_le _

theorem rests_leave (live : run ∈ r.live) (h : r.AtRestBut (run.ticket :: tickets)) :
    r.Rests tickets (r.leave run (run.progress r.delay r.clock)) := by
  unfold leave
  dsimp only
  split
  next outcomes time hstanding =>
    have hdrop := h.drop
    exact hdrop.trans (hdrop.rest.aside _ _ _ _)
  next wake hstanding =>
    have hnoted : r.Rests tickets
        (r.replace { run with calls := (run.progress r.delay r.clock).calls }) := by
      refine ⟨rfl, rfl, h.replace live rfl rfl (List.Subset.refl tickets) (Or.inr ⟨wake, ?_⟩),
        turnsLeft_replace_le h.nodup live rfl (run.turnsLeft_noted_le r.delay r.clock)⟩
      rw [← hstanding]
      rfl
    split
    next => exact hnoted
    next => exact hnoted.trans (hnoted.rest.aside _ _ _ _)

theorem rests_drive {fuel : Nat} (hfuel : r.permits.total < fuel) (live : run ∈ r.live)
    (h : r.AtRestBut (run.ticket :: tickets)) : r.Rests tickets (drive fuel run r) := by
  induction fuel generalizing run r with
  | zero => omega
  | succ fuel ih =>
    rw [drive]
    split
    next call gate harrival =>
      obtain ⟨hpermit, -⟩ := LiveRun.arrival?_eq_some harrival
      have hturns := LiveRun.turnsLeft_pass_le (h.names run live) harrival r.clock
      have hpassed : r.Rests (run.ticket :: tickets) (r.replace (run.pass r.clock call)) :=
        ⟨rfl, rfl, h.replace live rfl rfl (List.subset_cons_self _ _) (Or.inl List.mem_cons_self),
          turnsLeft_replace_le h.nodup live rfl hturns⟩
      have htaken := hpassed.trans
        (hpassed.rest.aside (r.permits.decrease gate) r.queue r.ended r.log)
      refine htaken.trans (ih ?_ (mem_replace live rfl) htaken.rest)
      have hless := Tally.total_decrease_lt hpermit
      dsimp only
      omega
    next =>
      have hnoted := h.aside r.permits r.queue r.ended
        (r.note run (run.progress r.delay r.clock).calls).log
      exact hnoted.trans (rests_leave live hnoted.rest)

theorem rests_carryOn {ticket : Nat} (h : r.AtRestBut (ticket :: tickets)) :
    r.Rests tickets (r.carryOn ticket) := by
  unfold carryOn
  split
  next hfind =>
    -- No live run has the ticket, so all runs but those of the others were at rest.
    refine ⟨rfl, rfl, ⟨h.nodup, h.names, fun run live => ?_⟩, Nat.le_refl _⟩
    have hne := List.find?_eq_none.mp hfind run live
    rcases h.rest run live with hticket | hrest
    · exact Or.inl ((List.mem_cons.mp hticket).resolve_left fun heq => hne (beq_iff_eq.mpr heq))
    · exact Or.inr hrest
  next run hfind =>
    obtain ⟨live, rfl⟩ := mem_of_find? hfind
    have hunqueued := h.aside r.permits (r.queue.filter (·.1 != run.ticket)) r.ended r.log
    exact hunqueued.trans (rests_drive (Nat.lt_succ_self _) live hunqueued.rest)

theorem rests_foldl_carryOn {runs : List LiveRun}
    (h : r.AtRestBut (runs.map LiveRun.ticket ++ tickets)) :
    r.Rests tickets (runs.foldl (fun r run => r.carryOn run.ticket) r) := by
  induction runs generalizing r with
  | nil => exact ⟨rfl, rfl, h, Nat.le_refl _⟩
  | cons run runs ih =>
    have hcarried := rests_carryOn h
    exact hcarried.trans (ih hcarried.rest)

/-! ## 3. The clock goes on -/

theorem wake?_of_isAtRest (h : run.IsAtRest r.delay r.clock) :
    (run.progress r.delay r.clock).standing = .busy (r.wake? run) := by
  obtain ⟨wake, hprogress⟩ := h
  rw [wake?, hprogress]

theorem isAtRest (h : r.AtRest) (live : run ∈ r.live) : run.IsAtRest r.delay r.clock :=
  (h.rest run live).resolve_left List.not_mem_nil

theorem clock_lt_of_wake? (h : r.AtRest) (live : run ∈ r.live) {wake : Nat}
    (hwake : r.wake? run = some wake) : r.clock < wake := by
  have hstanding := wake?_of_isAtRest (isAtRest h live)
  rw [hwake] at hstanding
  exact (run.course r.delay r.clock).lt_wake hstanding

theorem nextWake?_eq_some {next : Nat} (h : r.nextWake? = some next) :
    (∃ run ∈ r.live, r.wake? run = some next) ∧
      ∀ run ∈ r.live, ∀ wake, r.wake? run = some wake → next ≤ wake := by
  obtain ⟨hmem, hle⟩ := List.min?_eq_some_iff.mp h
  refine ⟨List.mem_filterMap.mp hmem, fun run live wake hwake => ?_⟩
  exact hle wake (List.mem_filterMap.mpr ⟨run, live, hwake⟩)

theorem exists_nextWake? (live : run ∈ r.live) {wake : Nat} (hwake : r.wake? run = some wake) :
    ∃ next, r.nextWake? = some next ∧ next ≤ wake := by
  cases hnext : r.nextWake? with
  | some next => exact ⟨next, rfl, (nextWake?_eq_some hnext).2 run live wake hwake⟩
  | none =>
    have hmem : wake ∈ r.live.filterMap r.wake? := List.mem_filterMap.mpr ⟨run, live, hwake⟩
    rw [List.min?_eq_none_iff.mp hnext] at hmem
    cases hmem

/-- The runs that have woken by a time. -/
def due (time : Nat) (r : Runner) : List LiveRun :=
  r.live.filter fun run => (r.wake? run).any (· ≤ time)

/-- As the clock goes on, all runs stay at rest but those that have woken. -/
theorem atRestBut_due {time : Nat} (h : r.AtRest) (hle : r.clock ≤ time) :
    { r with clock := time }.AtRestBut ((r.due time).map LiveRun.ticket) := by
  refine ⟨h.nodup, h.names, fun run live => ?_⟩
  by_cases hdue : run ∈ r.due time
  · exact Or.inl (List.mem_map_of_mem hdue)
  · refine Or.inr ((isAtRest h live).later hle fun wake hbusy => ?_)
    rw [wake?_of_isAtRest (isAtRest h live), Standing.busy.injEq] at hbusy
    refine Nat.lt_of_not_le fun hwoken => hdue (List.mem_filter.mpr ⟨live, ?_⟩)
    rw [hbusy]
    exact decide_eq_true hwoken

theorem turnsLeft_clock_lt {time : Nat} (h : r.AtRest) (live : run ∈ r.live)
    (hwake : r.wake? run = some time) : { r with clock := time }.turnsLeft < r.turnsLeft := by
  have hle := Nat.le_of_lt (clock_lt_of_wake? h live hwake)
  have hstanding := wake?_of_isAtRest (isAtRest h live)
  rw [hwake] at hstanding
  exact List.sum_lt_sum _ _ (fun _ live => (isAtRest h live).turnsLeft_le hle)
    ⟨run, live, (isAtRest h live).turnsLeft_lt hstanding (Nat.le_refl time)⟩

theorem with_clock_eq {time : Nat} (h : r.clock = time) : { r with clock := time } = r := by
  rw [← h]

theorem rests_wakeAt {time : Nat} (h : r.AtRest) (hle : r.clock ≤ time) :
    { r with clock := time }.Rests [] (r.wakeAt time) := by
  have hdue := atRestBut_due h hle
  rw [← List.append_nil ((r.due time).map _)] at hdue
  have hcarried := rests_foldl_carryOn hdue
  -- The clock still shows the time after the runs have been carried on.
  have hwakeAt : r.wakeAt time =
      (r.due time).foldl (fun r run => r.carryOn run.ticket) { r with clock := time } :=
    with_clock_eq hcarried.clock
  rw [hwakeAt]
  exact hcarried

theorem clock_lt_of_nextWake? {next : Nat} (h : r.AtRest) (hnext : r.nextWake? = some next) :
    r.clock < next := by
  obtain ⟨⟨run, live, hwake⟩, -⟩ := nextWake?_eq_some hnext
  exact clock_lt_of_wake? h live hwake

theorem atRest_wakeAt {next : Nat} (h : r.AtRest) (hnext : r.nextWake? = some next) :
    (r.wakeAt next).AtRest :=
  (rests_wakeAt h (Nat.le_of_lt (clock_lt_of_nextWake? h hnext))).rest

theorem turnsLeft_wakeAt_lt {next : Nat} (h : r.AtRest) (hnext : r.nextWake? = some next) :
    (r.wakeAt next).turnsLeft < r.turnsLeft := by
  have hwoken := rests_wakeAt h (Nat.le_of_lt (clock_lt_of_nextWake? h hnext))
  obtain ⟨⟨run, live, hwake⟩, -⟩ := nextWake?_eq_some hnext
  exact Nat.lt_of_le_of_lt hwoken.turns (turnsLeft_clock_lt h live hwake)

/-- Before anything wakes the clock may go on by itself. -/
theorem atRest_clock {time : Nat} (h : r.AtRest) (hle : r.clock ≤ time)
    (hasleep : ∀ next, r.nextWake? = some next → time < next) : { r with clock := time }.AtRest := by
  have hdue : r.due time = [] := by
    refine List.filter_eq_nil_iff.mpr fun run live hwoken => ?_
    cases hwake : r.wake? run with
    | none => rw [hwake] at hwoken; cases hwoken
    | some wake =>
      obtain ⟨next, hnext, hle⟩ := exists_nextWake? live hwake
      have hlt := hasleep next hnext
      simp only [hwake, Option.any_some, decide_eq_true_eq] at hwoken
      omega
  have hrest := atRestBut_due h hle
  rwa [hdue] at hrest

theorem atRest_advanceTo {time : Nat} (h : r.AtRest) (hle : r.clock ≤ time) :
    (r.advanceTo time).AtRest := by
  fun_induction advanceTo time r with
  | case1 r hnone => exact atRest_clock h hle fun next hnext => by rw [hnone] at hnext; cases hnext
  | case2 r next hnext hdue ih =>
    refine ih (atRest_wakeAt h hnext) ?_
    exact hdue.1
  | case3 r next hnext hdue =>
    have hlt := clock_lt_of_nextWake? h hnext
    refine atRest_clock h hle fun next' hnext' => ?_
    rw [hnext, Option.some.injEq] at hnext'
    omega

theorem atRest_awaitRun (ticket wakes : Nat) (h : r.AtRest) : (r.awaitRun ticket wakes).AtRest := by
  induction wakes generalizing r with
  | zero => exact h
  | succ wakes ih =>
    rw [awaitRun]
    split
    next hnext => exact ih (atRest_wakeAt h hnext)
    next => exact h

/-! ## 4. Operations -/

theorem atRest_cancel (ticket : Nat) (h : r.AtRest) : (r.cancel ticket).AtRest := by
  unfold cancel
  split
  next => exact (h.mono (List.nil_subset _)).drop.rest
  next => exact (h.aside _ _ _ _).rest

theorem atRest_poll (ticket : Nat) (h : r.AtRest) : (r.poll ticket).1.AtRest := by
  unfold poll
  split <;> exact (h.aside _ _ _ _).rest

theorem atRest_release (gate : String) (h : r.AtRest) : (r.release gate).AtRest := by
  unfold release
  split
  next => exact (h.aside _ _ _ _).rest
  next ticket _ _ =>
    split
    next => exact (h.aside _ _ _ _).rest
    next run hrun =>
      obtain ⟨old, hfind, hpass⟩ := Option.bind_eq_some_iff.mp hrun
      obtain ⟨waiting, -, rfl⟩ := Option.map_eq_some_iff.mp hpass
      obtain ⟨live, rfl⟩ := mem_of_find? hfind
      have hpassed : (r.replace (old.pass r.clock waiting.1)).AtRestBut [old.ticket] :=
        (h.mono (List.nil_subset _)).replace live rfl rfl (List.nil_subset _)
          (Or.inl List.mem_cons_self)
      exact (rests_carryOn hpassed).rest

section History
variable {delay : Nat} {events : List Event} (h : History delay events r)
include h

theorem ticket_lt_tickets (live : run ∈ r.live) : run.ticket < r.tickets := by
  have hbooked := Booked.of_history h
  exact hbooked.lt_tickets (hbooked.mem_openRuns live)

/-- A run that has been let in is the only one that is not at rest. -/
theorem atRestBut_accept {p : Plan} {jobs : List (Step × Worker)} (henter : r.enter p = .ok jobs)
    (hrest : r.AtRest) : (r.accept p jobs).AtRestBut [r.tickets] := by
  refine ⟨?_, ?_, ?_⟩
  · show ((r.live ++ [_]).map LiveRun.ticket).Nodup
    rw [List.map_append, List.nodup_append]
    refine ⟨hrest.nodup, List.nodup_singleton _, ?_⟩
    simp only [List.mem_map, List.map_singleton, List.mem_singleton]
    rintro _ ⟨run, live, rfl⟩ _ rfl
    exact Nat.ne_of_lt (ticket_lt_tickets h live)
  · refine List.forall_mem_append.mpr ⟨hrest.names, List.forall_mem_singleton.mpr ?_⟩
    exact Plan.nodup_names (enter_eq_ok henter).1
  · have hold : ∀ run ∈ r.live, run.ticket ∈ [r.tickets] ∨ run.IsAtRest r.delay r.clock :=
      fun run live => Or.inr (isAtRest hrest live)
    refine List.forall_mem_append.mpr ⟨hold, List.forall_mem_singleton.mpr ?_⟩
    exact Or.inl List.mem_cons_self

theorem atRest_start (p : Plan) (hrest : r.AtRest) : (r.start p).1.AtRest := by
  cases henter : r.enter p with
  | error failure =>
    rw [start_eq_of_enter_error henter]
    exact ⟨hrest.nodup, hrest.names, hrest.rest⟩
  | ok jobs =>
    rw [start_eq_of_enter_ok henter]
    exact (rests_carryOn (atRestBut_accept h henter hrest)).rest

theorem atRest_perform (op : Operation) (hrest : r.AtRest) : (r.perform op).AtRest := by
  cases op with
  | start p => exact atRest_start h p hrest
  | run p =>
    have hawaited := atRest_awaitRun (r.start p).2 (((r.start p).1.live.map LiveRun.turns).foldl
      (· + ·) 0) (atRest_start h p hrest)
    exact atRest_poll _ hawaited
  | cancel ticket => exact atRest_cancel ticket hrest
  | poll ticket => exact atRest_poll ticket hrest
  | release gate => exact atRest_release gate hrest
  | advance milliseconds => exact atRest_advanceTo hrest (Nat.le_add_right _ _)
  | takeLog => exact (hrest.aside _ _ _ _).rest

end History

/-- A new runner after operations, one after the other. -/
def reached (delay : Nat) (ops : List Operation) : Runner :=
  ops.foldl perform { delay }

theorem reached_spec (delay : Nat) (ops : List Operation) :
    (∃ events, History delay events (reached delay ops)) ∧ (reached delay ops).AtRest := by
  have hall : ∀ (ops : List Operation) (r : Runner), (∃ events, History delay events r) → r.AtRest →
      (∃ events, History delay events (ops.foldl perform r)) ∧ (ops.foldl perform r).AtRest := by
    intro ops
    induction ops with
    | nil => exact fun r hhistory hrest => ⟨hhistory, hrest⟩
    | cons op ops ih =>
      rintro r ⟨events, hhistory⟩ hrest
      obtain ⟨finishes, hchanges, -⟩ := perform_performs r op
      exact ih _ ⟨_, Changes.trans hhistory hchanges⟩ (atRest_perform hhistory op hrest)
  exact hall ops { delay } ⟨[], .refl _⟩ ⟨List.nodup_nil, by simp, by simp⟩

end Runner

end MediaCatalog.Workflow
