import Mathlib.Data.List.Nodup
import MediaCatalog.Proofs.Workflow.Admission
import MediaCatalog.Proofs.Workflow.History

/-!
# Slots — the recorded number of active runs is exact

The number of slots that are taken for a workflow is the number of its runs that were let in and
have neither finished nor been cancelled (`Booked`), whatever else the runner was asked for between.
-/

namespace MediaCatalog.Workflow

/-! ## 1. Open runs -/

/-- Ticket and workflow of a run that was let in. -/
def Event.acceptance? : Event → Option (Nat × String)
  | .accepted ticket plan => some (ticket, plan.definition.id)
  | _ => none

/-- The run with the ticket is over. -/
def Event.closes (ticket : Nat) : Event → Bool
  | .finished t _ _ | .cancelled t _ => t == ticket
  | _ => false

/-- The runs that were let in and have neither finished nor been cancelled. -/
def openRuns (events : List Event) : List (Nat × String) :=
  (events.filterMap Event.acceptance?).filter fun run => !events.any (Event.closes run.1)

/-- The number of open runs of a workflow. -/
def activeRuns (id : String) (events : List Event) : Nat :=
  (openRuns events).countP (·.2 == id)

theorem closes_ticket {ticket : Nat} {e : Event} (h : e.closes ticket = true) :
    e.ticket = ticket := by
  cases e with
  | accepted | refused => cases h
  | finished | cancelled => exact beq_iff_eq.mp h

theorem exists_event_of_mem_openRuns {events : List Event} {run : Nat × String}
    (h : run ∈ openRuns events) : ∃ e ∈ events, e.ticket = run.1 := by
  obtain ⟨e, he, hrun⟩ := List.mem_filterMap.mp (List.mem_filter.mp h).1
  refine ⟨e, he, ?_⟩
  cases e with
  | accepted ticket plan => rw [← Option.some_inj.mp hrun]; rfl
  | refused | finished | cancelled => cases hrun

theorem openRuns_accepted {events : List Event} {ticket : Nat} {p : Plan}
    (hfresh : ∀ e ∈ events, e.ticket < ticket) :
    openRuns (events ++ [.accepted ticket p]) = openRuns events ++ [(ticket, p.definition.id)] := by
  have hopen : ∀ e ∈ events, e.closes ticket = false := fun e he => by
    cases hclose : e.closes ticket with
    | false => rfl
    | true => exact absurd (closes_ticket hclose) (Nat.ne_of_lt (hfresh e he))
  have hcloses : ∀ t, (Event.accepted ticket p).closes t = false := fun _ => rfl
  have hacceptance : (Event.accepted ticket p).acceptance? = some (ticket, p.definition.id) := rfl
  rw [openRuns, openRuns, List.filterMap_append, List.filter_append]
  simp only [List.any_append, List.any_cons, List.any_nil, hcloses, Bool.or_false,
    List.filterMap_cons, hacceptance, List.filterMap_nil]
  rw [List.filter_cons_of_pos, List.filter_nil]
  rw [Bool.not_eq_true', List.any_eq_false]
  exact fun e he => by rw [hopen e he]; exact Bool.false_ne_true

theorem openRuns_refused (events : List Event) (ticket : Nat) (failure : Failure) :
    openRuns (events ++ [.refused ticket failure]) = openRuns events := by
  have hcloses : ∀ t, (Event.refused ticket failure).closes t = false := fun _ => rfl
  have hacceptance : (Event.refused ticket failure).acceptance? = none := rfl
  simp only [openRuns, List.filterMap_append, List.any_append, List.any_cons, List.any_nil, hcloses,
    Bool.or_false, List.filterMap_cons, hacceptance, List.filterMap_nil, List.append_nil]

/-- The end of a run takes it from the open runs. -/
theorem openRuns_closed (events : List Event) {e : Event} {ticket : Nat}
    (hacceptance : e.acceptance? = none) (hcloses : ∀ t, e.closes t = (ticket == t)) :
    openRuns (events ++ [e]) = (openRuns events).filter (·.1 != ticket) := by
  simp only [openRuns, List.filterMap_append, List.filterMap_cons, hacceptance, List.filterMap_nil,
    List.append_nil, List.any_append, List.any_cons, List.any_nil, hcloses, Bool.or_false,
    List.filter_filter]
  apply List.filter_congr
  intro run _
  rw [Bool.not_or, Bool.and_comm, bne, Bool.beq_comm]

theorem countP_eq_countP_filter_add {runs : List (Nat × String)} {ticket : Nat} {id : String}
    (hnodup : (runs.map Prod.fst).Nodup) (h : (ticket, id) ∈ runs) (other : String) :
    runs.countP (·.2 == other) =
      (runs.filter (·.1 != ticket)).countP (·.2 == other) + if other = id then 1 else 0 := by
  obtain ⟨before, after, rfl⟩ := List.append_of_mem h
  rw [List.map_append, List.map_cons, List.nodup_append, List.nodup_cons] at hnodup
  have hbefore : before.filter (·.1 != ticket) = before := by
    refine List.filter_eq_self.mpr fun run hrun => bne_iff_ne.mpr fun heq => ?_
    exact hnodup.2.2 run.1 (List.mem_map_of_mem hrun) ticket List.mem_cons_self heq
  have hafter : after.filter (·.1 != ticket) = after := by
    refine List.filter_eq_self.mpr fun run hrun => bne_iff_ne.mpr fun heq => ?_
    exact hnodup.2.1.1 (List.mem_map.mpr ⟨run, hrun, heq⟩)
  rw [List.filter_append, List.filter_cons_of_neg (by simp), hbefore, hafter, List.countP_append,
    List.countP_append, List.countP_cons]
  simp only [beq_iff_eq, eq_comm (a := other)]
  omega

/-! ## 2. What the books say at any time -/

def LiveRun.key (run : LiveRun) : Nat × String :=
  (run.ticket, run.workflow)

/-- The live runs are the open ones, each under a ticket of its own, and they are counted. -/
structure Booked (events : List Event) (r : Runner) : Prop where
  live : r.live.map LiveRun.key = openRuns events
  nodup : ((openRuns events).map Prod.fst).Nodup
  tickets : ∀ e ∈ events, e.ticket < r.tickets
  slots : ∀ id, r.slots.count id = activeRuns id events

namespace Booked
variable {events : List Event} {r s : Runner} {run : LiveRun}

theorem new (delay : Nat) : Booked [] { delay } :=
  ⟨rfl, List.nodup_nil, by simp, fun _ => rfl⟩

theorem mem_openRuns (h : Booked events r) (live : run ∈ r.live) : run.key ∈ openRuns events := by
  rw [← h.live]
  exact List.mem_map_of_mem live

theorem lt_tickets (h : Booked events r) {open' : Nat × String} (hopen : open' ∈ openRuns events) :
    open'.1 < r.tickets := by
  obtain ⟨e, he, hticket⟩ := exists_event_of_mem_openRuns hopen
  exact hticket ▸ h.tickets e he

theorem congr (h : Booked events r) (hlive : s.live.map LiveRun.key = r.live.map LiveRun.key)
    (htickets : s.tickets = r.tickets) (hslots : s.slots = r.slots) : Booked events s :=
  ⟨hlive.trans h.live, h.nodup, htickets ▸ h.tickets, hslots ▸ h.slots⟩

theorem accept (h : Booked events r) {p : Plan} (jobs : List (Step × Worker)) :
    Booked (events ++ [.accepted r.tickets p]) (r.accept p jobs) := by
  have hopen := openRuns_accepted (p := p) h.tickets
  refine ⟨?_, ?_, ?_, ?_⟩
  · rw [hopen, ← h.live]
    exact List.map_append
  · rw [hopen, List.map_append, List.nodup_append]
    refine ⟨h.nodup, List.nodup_singleton _, fun a ha b hb => ?_⟩
    obtain ⟨open', hmem, rfl⟩ := List.mem_map.mp ha
    rw [List.map_singleton, List.mem_singleton] at hb
    rw [hb]
    exact Nat.ne_of_lt (h.lt_tickets hmem)
  · intro e he
    rcases List.mem_append.mp he with he | he
    · exact Nat.lt_succ_of_lt (h.tickets e he)
    · rw [List.mem_singleton.mp he]
      exact Nat.lt_succ_self _
  · intro id
    have hincrease := r.slots.count_increase p.definition.id id
    rw [Runner.accept, hincrease, activeRuns, hopen, List.countP_append, h.slots id, activeRuns,
      List.countP_singleton]
    simp only [beq_iff_eq, eq_comm (a := id)]
    split <;> rfl

theorem refuse (h : Booked events r) (failure : Failure) :
    Booked (events ++ [.refused r.tickets failure]) (r.refuse failure) := by
  have hopen := openRuns_refused events r.tickets failure
  refine ⟨hopen ▸ h.live, hopen ▸ h.nodup, fun e he => ?_, fun id => ?_⟩
  · rcases List.mem_append.mp he with he | he
    · exact Nat.lt_succ_of_lt (h.tickets e he)
    · rw [List.mem_singleton.mp he]
      exact Nat.lt_succ_self _
  · rw [activeRuns, hopen]
    exact h.slots id

theorem drop (h : Booked events r) (live : run ∈ r.live) {e : Event}
    (hacceptance : e.acceptance? = none) (hcloses : ∀ t, e.closes t = (run.ticket == t))
    (hticket : e.ticket = run.ticket) : Booked (events ++ [e]) (r.drop run) := by
  have hmem := h.mem_openRuns live
  have hopen := openRuns_closed events hacceptance hcloses
  refine ⟨?_, ?_, ?_, ?_⟩
  · rw [hopen, ← h.live, List.filter_map]
    rfl
  · rw [hopen]
    exact h.nodup.sublist (List.filter_sublist.map Prod.fst)
  · intro e' he
    rcases List.mem_append.mp he with he | he
    · exact h.tickets e' he
    · rw [List.mem_singleton.mp he, hticket]
      exact h.lt_tickets hmem
  · -- One open run fewer, and one less is recorded; the number was not zero.
    intro id
    have hcount := countP_eq_countP_filter_add h.nodup hmem id
    have hdecrease := r.slots.count_decrease run.workflow id
    rw [Runner.drop, hdecrease, activeRuns, hopen, h.slots id, activeRuns, hcount]
    split <;> omega

theorem replace (h : Booked events r) (live : run ∈ r.live) (passages : List Passage)
    (calls : List Call) : Booked events (r.replace { run with passages, calls }) := by
  refine h.congr ?_ rfl rfl
  have hnodup : (r.live.map LiveRun.ticket).Nodup := by
    have := h.nodup
    rwa [← h.live, List.map_map] at this
  rw [Runner.replace, List.map_map]
  apply List.map_congr_left
  intro other hother
  rw [Function.comp_apply]
  split
  next heq =>
    rw [List.inj_on_of_nodup_map hnodup hother live heq]
    rfl
  next => rfl

/-- Every change keeps the books. -/
theorem change (h : Booked events r) {more : List Event} (hchange : r.Change more s) :
    Booked (events ++ more) s := by
  cases hchange with
  | accept => exact h.accept _
  | refuse => exact h.refuse _
  | @finish run calls outcomes time live ended =>
    exact (h.drop live rfl (fun _ => rfl) rfl).congr rfl rfl rfl
  | cancel live => exact h.drop live rfl (fun _ => rfl) rfl
  | proceed live passages calls =>
    rw [List.append_nil]
    exact h.replace live passages calls
  | aside | forget =>
    rw [List.append_nil]
    exact h.congr rfl rfl rfl

/-- The books are right at any time. -/
theorem of_history {delay : Nat} (h : Runner.History delay events r) : Booked events r := by
  unfold Runner.History at h
  induction h with
  | refl => exact .new delay
  | tail _ last ih => exact ih.change last

/-- The number of a live run is never zero, so there is a slot to give back. -/
theorem count_pos (h : Booked events r) (live : run ∈ r.live) : 0 < r.slots.count run.workflow := by
  rw [h.slots, activeRuns, List.countP_pos_iff]
  exact ⟨run.key, h.mem_openRuns live, beq_self_eq_true _⟩

theorem drop_elsewhere (h : Booked events r) (live : run ∈ r.live) {other : String}
    (hne : run.workflow ≠ other) :
    (r.drop run).slots.count other = r.slots.count other ∧
      ((r.drop run).live.map LiveRun.key).filter (·.2 == other) =
        (r.live.map LiveRun.key).filter (·.2 == other) := by
  have hdecrease := r.slots.count_decrease run.workflow other
  refine ⟨by rw [Runner.drop, hdecrease, if_neg hne.symm], ?_⟩
  rw [Runner.drop, List.filter_map, List.filter_map, List.filter_filter]
  apply congrArg (List.map LiveRun.key)
  apply List.filter_congr
  intro x hx
  by_cases hx' : x.workflow = other
  · -- A run of another workflow is another run, and so it has another ticket.
    have hticket : x.ticket ≠ run.ticket := fun heq => by
      have hnodup := h.nodup
      rw [← h.live] at hnodup
      have hkey := List.inj_on_of_nodup_map hnodup (List.mem_map_of_mem hx)
        (List.mem_map_of_mem live) heq
      exact hne (by rw [← hx']; exact (congrArg Prod.snd hkey).symm)
    simp [hticket]
  · simp [LiveRun.key, hx']

/-- A change without an event of a workflow leaves its runs and their number as they are. -/
theorem elsewhere (h : Booked events r) {more : List Event} (hchange : r.Change more s)
    {other : String} (hother : ∀ e ∈ more, e.workflow? ≠ some other) :
    s.slots.count other = r.slots.count other ∧
      (s.live.map LiveRun.key).filter (·.2 == other) =
        (r.live.map LiveRun.key).filter (·.2 == other) := by
  cases hchange with
  | @accept p jobs henter =>
    have hne : p.definition.id ≠ other := fun heq => hother _ List.mem_cons_self (congrArg some heq)
    have hincrease := r.slots.count_increase p.definition.id other
    refine ⟨by rw [Runner.accept, hincrease, if_neg hne.symm], ?_⟩
    rw [Runner.accept, List.map_append, List.filter_append]
    simp [LiveRun.key, hne]
  | refuse | aside | forget => exact ⟨rfl, rfl⟩
  | @finish run calls outcomes time live ended =>
    exact h.drop_elsewhere live fun heq => hother _ List.mem_cons_self (congrArg some heq)
  | @cancel run live =>
    exact h.drop_elsewhere live fun heq => hother _ List.mem_cons_self (congrArg some heq)
  | proceed live passages calls =>
    have hkept := (h.replace live passages calls).live
    exact ⟨rfl, by rw [hkept, h.live]⟩

end Booked

/-- The event settles whether the run of its ticket is let in. -/
def Event.isOpening : Event → Bool
  | .accepted _ _ | .refused _ _ => true
  | .finished _ _ _ | .cancelled _ _ => false

/-- A ticket is given once: it belongs to one plan that was accepted or to one refusal. -/
theorem opening_unique {delay : Nat} {events : List Event} {r : Runner}
    (h : Runner.History delay events r) {e e' : Event} (he : e ∈ events) (he' : e' ∈ events)
    (hopening : e.isOpening = true) (hopening' : e'.isOpening = true)
    (hticket : e.ticket = e'.ticket) : e = e' := by
  unfold Runner.History at h
  induction h with
  | refl => cases he
  | @tail r s events more first last ih =>
    have hlt : ∀ e ∈ events, e.ticket < r.tickets := (Booked.of_history first).tickets
    have hmore : ∀ e ∈ more, e.isOpening = true → more = [e] ∧ e.ticket = r.tickets := by
      intro e he hopening
      cases last with
      | accept | refuse => rw [List.mem_singleton.mp he]; exact ⟨rfl, rfl⟩
      | finish | cancel => rw [List.mem_singleton.mp he] at hopening; cases hopening
      | proceed | aside | forget => cases he
    rcases List.mem_append.mp he with he | he <;> rcases List.mem_append.mp he' with he' | he'
    · exact ih he he'
    · have := hlt e he
      have := (hmore e' he' hopening').2
      omega
    · have := hlt e' he'
      have := (hmore e he hopening).2
      omega
    · rw [(hmore e he hopening).1] at he'
      exact (List.mem_singleton.mp he').symm

/-! ## 3. Limits -/

/-- A change raises a recorded number only if it lets a run in, and then from below the limit. -/
theorem slots_change {r s : Runner} {more : List Event} (h : r.Change more s) (id : String) :
    s.slots.count id ≤ r.slots.count id ∨
      ∃ ticket p, .accepted ticket p ∈ more ∧ p.definition.id = id ∧
        s.slots.count id ≤ p.definition.maxActiveRuns.toNat := by
  cases h with
  | @accept p jobs henter =>
    have hincrease := r.slots.count_increase p.definition.id id
    have hfree := (Runner.enter_eq_ok henter).2
    by_cases hid : id = p.definition.id
    · refine Or.inr ⟨_, p, List.mem_cons_self, hid.symm, ?_⟩
      rw [Runner.accept, hincrease, if_pos hid, hid]
      exact hfree
    · refine Or.inl (Nat.le_of_eq ?_)
      rw [Runner.accept, hincrease, if_neg hid]
  | @finish run calls outcomes time live ended =>
    have hdecrease := r.slots.count_decrease run.workflow id
    apply Or.inl
    show (r.slots.decrease run.workflow).count id ≤ _
    rw [hdecrease]
    split <;> omega
  | @cancel run live =>
    have hdecrease := r.slots.count_decrease run.workflow id
    apply Or.inl
    rw [Runner.drop, hdecrease]
    split <;> omega
  | refuse | proceed | aside | forget => exact Or.inl (Nat.le_refl _)

/-- The recorded number of a workflow stays within any bound on the limits of its runs. -/
theorem slots_le {delay : Nat} {events : List Event} {r : Runner}
    (h : Runner.History delay events r) {id : String} {bound : Nat}
    (hbound : ∀ ticket p, .accepted ticket p ∈ events → p.definition.id = id →
      p.definition.maxActiveRuns.toNat ≤ bound) :
    r.slots.count id ≤ bound := by
  unfold Runner.History at h
  induction h with
  | refl => exact Nat.zero_le _
  | tail _ last ih =>
    rcases slots_change last id with hle | ⟨ticket, p, hmem, hid, hle⟩
    · refine Nat.le_trans hle (ih fun ticket p haccepted => hbound ticket p ?_)
      exact List.mem_append_left _ haccepted
    · exact Nat.le_trans hle (hbound ticket p (List.mem_append_right _ hmem) hid)

/-! ## 4. The account of a runner -/

/-- What the slots of a runner say after the given events. -/
structure Accounted (delay : Nat) (events : List Event) (r : Runner) : Prop where
  /-- The live runs are those that were let in and have neither finished nor been cancelled. -/
  live : r.live.map LiveRun.key = openRuns events
  /-- The recorded number of a workflow is that of its open runs. -/
  recorded : ∀ id, r.slots.count id = activeRuns id events
  /-- A run that could start is let in below its limit, and else told the number of active runs. -/
  entered : ∀ p : Plan, p.definition.isValid = true → p.HasWorkers →
    if activeRuns p.definition.id events < p.definition.maxActiveRuns.toNat then
      ∃ jobs, r.enter p = .ok jobs
    else
      r.enter p =
        .error (.tooManyActiveRuns p.definition.id (activeRuns p.definition.id events))
  /-- No other refusal speaks of active runs. -/
  reported : ∀ p id n, r.enter p = .error (.tooManyActiveRuns id n) →
    id = p.definition.id ∧ n = activeRuns id events ∧ p.definition.maxActiveRuns.toNat ≤ n
  /-- A refused start, for whatever reason, only leaves its refusal behind. -/
  refused : ∀ p failure, r.enter p = .error failure →
    (r.start p).1 = r.refuse failure ∧ (r.start p).1.slots = r.slots ∧
      (r.start p).1.live = r.live
  /-- Runs of other workflows are not affected. -/
  elsewhere : ∀ more s other, r.Change more s → (∀ e ∈ more, e.workflow? ≠ some other) →
    s.slots.count other = r.slots.count other ∧
      (s.live.map LiveRun.key).filter (·.2 == other) =
        (r.live.map LiveRun.key).filter (·.2 == other)
  /-- To let a run in does not take the number beyond 32 bits. -/
  increase : ∀ p jobs, r.enter p = .ok jobs → r.slots.count p.definition.id + 1 < UInt32.size
  /-- To give back a slot never meets an empty number. -/
  decrease : ∀ run ∈ r.live, 0 < r.slots.count run.workflow
  /-- A limit that all runs of a workflow share is never exceeded. -/
  limited : ∀ id limit, (∀ ticket p, .accepted ticket p ∈ events → p.definition.id = id →
    p.definition.maxActiveRuns = limit) → activeRuns id events ≤ limit.toNat
  /-- Every operation leads on: to its own event, if it brings one, and to the end of some runs. -/
  performed : ∀ op : Runner.Operation, ∃ finishes,
    Runner.History delay (events ++ (op.opening r ++ finishes)) (r.perform op) ∧
      ∀ e ∈ finishes, e.isFinish = true

/-- At any time, for any sequence of starts, completions and cancellations, the recorded numbers of
active runs are exact, and admission follows them. -/
theorem accounted_of_history {delay : Nat} {events : List Event} {r : Runner}
    (h : Runner.History delay events r) : Accounted delay events r where
  live := (Booked.of_history h).live
  recorded := (Booked.of_history h).slots
  entered := by
    intro p hvalid hworkers
    have hslots := (Booked.of_history h).slots p.definition.id
    obtain ⟨jobs, hjobs⟩ := Plan.exists_jobs hvalid hworkers
    rw [Runner.enter_of_jobs_ok hjobs, hslots]
    split
    next hfree => exact ⟨jobs, if_neg (Nat.not_le.mpr hfree)⟩
    next hfull => exact if_pos (Nat.le_of_not_lt hfull)
  reported := by
    intro p id n henter
    obtain ⟨hid, hn, hfull⟩ := Runner.enter_eq_tooManyActiveRuns henter
    refine ⟨hid, ?_, hfull⟩
    rw [hn, hid]
    exact (Booked.of_history h).slots p.definition.id
  refused := by
    intro p failure henter
    rw [Runner.start_eq_of_enter_error henter]
    exact ⟨rfl, rfl, rfl⟩
  elsewhere := fun more s other hchange hother => (Booked.of_history h).elsewhere hchange hother
  increase := by
    intro p jobs henter
    have hfree := (Runner.enter_eq_ok henter).2
    exact Nat.lt_of_le_of_lt hfree p.definition.maxActiveRuns.toNat_lt_size
  decrease := fun run live => (Booked.of_history h).count_pos live
  limited := by
    intro id limit hlimit
    rw [← (Booked.of_history h).slots id]
    apply slots_le h
    intro ticket p haccepted hid
    rw [hlimit ticket p haccepted hid]
  performed := by
    intro op
    obtain ⟨finishes, hchanges, hfinish⟩ := Runner.perform_performs r op
    exact ⟨finishes, Runner.Changes.trans h hchanges, hfinish⟩

/-- A workflow of one step that waits at a gate; one run may be active. -/
def gatedPlan : Plan :=
  ⟨{ id := "install", steps := [{ name := "wait" }] },
    [("wait", fun _ => { gate := some "gate", answer := .ok .null })]⟩

theorem accounted_refused_second_run :
    ∃ r, Runner.History 0 [.accepted 0 gatedPlan, .refused 1 (.tooManyActiveRuns "install" 1)] r ∧
      Accounted 0 [.accepted 0 gatedPlan, .refused 1 (.tooManyActiveRuns "install" 1)] r := by
  have hfirst : ({ delay := 0 } : Runner).enter gatedPlan =
      .ok [({ name := "wait" }, fun _ => { gate := some "gate", answer := .ok .null })] := rfl
  have hsecond : (({ delay := 0 } : Runner).accept gatedPlan
      [({ name := "wait" }, fun _ => { gate := some "gate", answer := .ok .null })]).enter gatedPlan =
        .error (.tooManyActiveRuns "install" 1) := rfl
  have h := (Runner.Changes.single (.accept hfirst)).tail (.refuse hsecond)
  exact ⟨_, h, accounted_of_history h⟩

end MediaCatalog.Workflow
