import Mathlib.Logic.Relation
import MediaCatalog.Proofs.Workflow.Admission
import MediaCatalog.Proofs.Workflow.History
import MediaCatalog.Proofs.Workflow.Turn

/-!
# Reports — what a run that has ended says of its steps

A run looks only at the outcomes of what a step needs directly. Since the steps come in an order in
which dependencies are first, this decides the same for all that a step needs through others
(`Schedule.blocked_iff`).
-/

namespace MediaCatalog.Workflow

/-! ## 1. What a step needs -/

namespace Definition

/-- A step of the first name lists the second as a dependency. -/
def Requires (d : Definition) (a b : String) : Prop :=
  ∃ s ∈ d.steps, s.name = a ∧ b ∈ s.dependencies

/-- A step of the first name needs the second, directly or through others. -/
def DependsOn (d : Definition) : String → String → Prop :=
  Relation.TransGen d.Requires

/-- All turns of a run of a definition. -/
structure Schedule (d : Definition) (delay clock start : Nat) (turns : List Turn) (finish : Nat) :
    Prop where
  order : d.executionOrder = .ok (turns.map Turn.step)
  turns : Turns delay clock [] start turns finish

end Definition

/-- The step ran and did not succeed. -/
def Outcome.HasFailed (o : Outcome) : Prop :=
  o.status = .failed ∨ o.status = .timedOut

namespace Definition.Schedule
variable {d : Definition} {delay clock start finish : Nat} {turns : List Turn}

theorem perm (h : d.Schedule delay clock start turns finish) :
    (turns.map Turn.step).Perm d.steps :=
  (executionOrder_eq_ok h.order).2.1

theorem nodup (h : d.Schedule delay clock start turns finish) :
    (turns.map fun t => t.step.name).Nodup := by
  have hnames := ((isValid_iff d).mp (executionOrder_eq_ok h.order).1).2.1
  have hsorted := (h.perm.map Step.name).nodup_iff.mpr hnames
  rwa [List.map_map] at hsorted

theorem step_mem (h : d.Schedule delay clock start turns finish) {t : Turn} (ht : t ∈ turns) :
    t.step ∈ d.steps :=
  h.perm.subset (List.mem_map_of_mem ht)

theorem eq_of_name_eq (h : d.Schedule delay clock start turns finish) {t u : Turn}
    (ht : t ∈ turns) (hu : u ∈ turns) (hname : t.step.name = u.step.name) : t = u :=
  List.inj_on_of_nodup_map h.nodup ht hu hname

theorem step_eq (h : d.Schedule delay clock start turns finish) {t : Turn} (ht : t ∈ turns)
    {s : Step} (hs : s ∈ d.steps) (hname : t.step.name = s.name) : t.step = s := by
  obtain ⟨u, hu, rfl⟩ := List.mem_map.mp (h.perm.symm.subset hs)
  rw [h.eq_of_name_eq ht hu hname]

theorem taken (h : d.Schedule delay clock start turns finish) {before after : List Turn} {t : Turn}
    (hsplit : turns = before ++ t :: after) :
    Turns delay clock [] start before t.start ∧
      t.Taken delay clock (before.map Turn.outcome) :=
  (hsplit ▸ h.turns).taken

theorem outcome_step (h : d.Schedule delay clock start turns finish) {t : Turn} (ht : t ∈ turns) :
    t.outcome.step = t.step.name := by
  obtain ⟨before, after, hsplit⟩ := List.append_of_mem ht
  exact (h.taken hsplit).2.outcome_step

theorem exists_before (h : d.Schedule delay clock start turns finish) {before after : List Turn}
    {t : Turn} (hsplit : turns = before ++ t :: after) {a : String}
    (ha : a ∈ t.step.dependencies) : ∃ u ∈ before, u.step.name = a := by
  have hfirst := (executionOrder_eq_ok h.order).2.2
  have hbefore := hfirst (before.map Turn.step) t.step (after.map Turn.step)
    (by rw [hsplit, List.map_append, List.map_cons]) a ha
  rw [List.map_map] at hbefore
  exact List.mem_map.mp hbefore

theorem succeeds_iff (h : d.Schedule delay clock start turns finish) {a : String} :
    Succeeds (turns.map Turn.outcome) a ↔
      ∃ t ∈ turns, t.step.name = a ∧ t.outcome.status = .succeeded := by
  constructor
  · rintro ⟨o, ho, hname, hstatus⟩
    obtain ⟨t, ht, rfl⟩ := List.mem_map.mp ho
    rw [h.outcome_step ht] at hname
    exact ⟨t, ht, hname, hstatus⟩
  · rintro ⟨t, ht, hname, hstatus⟩
    exact ⟨t.outcome, List.mem_map_of_mem ht, (h.outcome_step ht).trans hname, hstatus⟩

/-- Of a dependency the turns before a step know as much as all turns. -/
theorem succeeds_before_iff (h : d.Schedule delay clock start turns finish)
    {before after : List Turn} {t : Turn} (hsplit : turns = before ++ t :: after) {a : String}
    (ha : a ∈ t.step.dependencies) :
    Succeeds (before.map Turn.outcome) a ↔ Succeeds (turns.map Turn.outcome) a := by
  have hsub : before ⊆ turns := hsplit ▸ List.subset_append_left _ _
  constructor
  · rintro ⟨o, ho, hsucceeded⟩
    exact ⟨o, List.map_subset _ hsub ho, hsucceeded⟩
  · intro hall
    obtain ⟨v, hv, hname, hstatus⟩ := h.succeeds_iff.mp hall
    obtain ⟨u, hu, rfl⟩ := h.exists_before hsplit ha
    rw [h.eq_of_name_eq hv (hsub hu) hname] at hstatus
    exact ⟨u.outcome, List.mem_map_of_mem hu, h.outcome_step (hsub hu), hstatus⟩

theorem succeeds_of_status_ne (h : d.Schedule delay clock start turns finish) {t : Turn}
    (ht : t ∈ turns) (hstatus : t.outcome.status ≠ .blocked) :
    ∀ a ∈ t.step.dependencies, Succeeds (turns.map Turn.outcome) a := by
  obtain ⟨before, after, hsplit⟩ := List.append_of_mem ht
  have hfree := ((h.taken hsplit).2.free_of_status_ne hstatus).1
  intro a ha
  exact (h.succeeds_before_iff hsplit ha).mp (Step.blockedBy?_eq_none_iff.mp hfree a ha)

theorem skipped_of_status_eq (h : d.Schedule delay clock start turns finish) {t : Turn}
    (ht : t ∈ turns) (hstatus : t.outcome.status = .blocked) :
    ∃ front a back, t.step.dependencies = front ++ a :: back ∧
      (∀ b ∈ front, Succeeds (turns.map Turn.outcome) b) ∧
      ¬Succeeds (turns.map Turn.outcome) a ∧ t.calls = [] ∧
      t.outcome = .blocked t.step.name a := by
  obtain ⟨before, after, hsplit⟩ := List.append_of_mem ht
  obtain ⟨a, hblocked, hcalls, houtcome⟩ := (h.taken hsplit).2.skipped_of_status_eq hstatus
  obtain ⟨front, back, hdeps, hfront, ha⟩ := Step.blockedBy?_eq_some_iff.mp hblocked
  refine ⟨front, a, back, hdeps, fun b hb => ?_, fun hall => ha ?_, hcalls, houtcome⟩
  · have hmem : b ∈ t.step.dependencies := hdeps ▸ List.mem_append_left _ hb
    exact (h.succeeds_before_iff hsplit hmem).mp (hfront b hb)
  · have hmem : a ∈ t.step.dependencies := hdeps ▸ List.mem_append_right _ List.mem_cons_self
    exact (h.succeeds_before_iff hsplit hmem).mpr hall

/-- A blocked step needs one that failed: a chain of blocked steps goes back in the order. -/
theorem exists_failed (h : d.Schedule delay clock start turns finish) {before after : List Turn}
    {t : Turn} (hsplit : turns = before ++ t :: after) (hstatus : t.outcome.status = .blocked) :
    ∃ u ∈ turns, d.DependsOn t.step.name u.step.name ∧ u.outcome.HasFailed := by
  -- By induction on the place in the order: what blocks a step comes before it.
  induction hlength : before.length using Nat.strong_induction_on
    generalizing before t after with
  | _ n ih =>
    have ht : t ∈ turns := hsplit ▸ List.mem_append_right _ List.mem_cons_self
    obtain ⟨front, a, back, hdeps, -, hnot, -⟩ := h.skipped_of_status_eq ht hstatus
    have ha : a ∈ t.step.dependencies := hdeps ▸ List.mem_append_right _ List.mem_cons_self
    obtain ⟨u, hu, rfl⟩ := h.exists_before hsplit ha
    have hu' : u ∈ turns := hsplit ▸ List.mem_append_left _ hu
    have hrequires : d.Requires t.step.name u.step.name := ⟨t.step, h.step_mem ht, rfl, ha⟩
    cases hstatus' : u.outcome.status with
    | succeeded => exact absurd (h.succeeds_iff.mpr ⟨u, hu', rfl, hstatus'⟩) hnot
    | failed => exact ⟨u, hu', .single hrequires, Or.inl hstatus'⟩
    | timedOut => exact ⟨u, hu', .single hrequires, Or.inr hstatus'⟩
    | blocked =>
      obtain ⟨earlier, later, hbefore⟩ := List.append_of_mem hu
      rw [hbefore, List.append_assoc] at hsplit
      have hlt : earlier.length < n := by
        rw [← hlength, hbefore, List.length_append, List.length_cons]
        omega
      obtain ⟨v, hv, hdepends, hfailed⟩ := ih earlier.length hlt hsplit hstatus' rfl
      exact ⟨v, hv, .head hrequires hdepends, hfailed⟩

theorem blocked_of_requires (h : d.Schedule delay clock start turns finish) {t : Turn}
    (ht : t ∈ turns) {a : String} (hrequires : d.Requires t.step.name a)
    (hnot : ¬Succeeds (turns.map Turn.outcome) a) : t.outcome.status = .blocked := by
  obtain ⟨s, hs, hname, ha⟩ := hrequires
  rw [← h.step_eq ht hs hname.symm] at ha
  exact Classical.byContradiction fun hstatus => hnot (h.succeeds_of_status_ne ht hstatus a ha)

theorem not_succeeds (h : d.Schedule delay clock start turns finish) {t : Turn} (ht : t ∈ turns)
    (hstatus : t.outcome.status ≠ .succeeded) :
    ¬Succeeds (turns.map Turn.outcome) t.step.name := by
  intro hall
  obtain ⟨u, hu, hname, hsucceeded⟩ := h.succeeds_iff.mp hall
  rw [h.eq_of_name_eq hu ht hname] at hsucceeded
  exact hstatus hsucceeded

/-- A failure blocks all that need it: what stands between them is blocked and does not succeed. -/
theorem blocked_of_dependsOn (h : d.Schedule delay clock start turns finish) {t u : Turn}
    (ht : t ∈ turns) (hu : u ∈ turns) (hdepends : d.DependsOn t.step.name u.step.name)
    (hfailed : u.outcome.HasFailed) : t.outcome.status = .blocked := by
  have hnot : ¬Succeeds (turns.map Turn.outcome) u.step.name := by
    apply h.not_succeeds hu
    intro hsucceeded
    rcases hfailed with hstatus | hstatus <;> rw [hsucceeded] at hstatus <;> cases hstatus
  generalize hfrom : t.step.name = a at hdepends
  induction hdepends using Relation.TransGen.head_induction_on generalizing t with
  | single hrequires =>
    subst hfrom
    exact h.blocked_of_requires ht hrequires hnot
  | head hrequires _ ih =>
    -- The next step on the way is blocked itself, so it has not succeeded either.
    subst hfrom
    apply h.blocked_of_requires ht hrequires
    intro hall
    obtain ⟨v, hv, hname, hsucceeded⟩ := h.succeeds_iff.mp hall
    have hblocked := ih hv hname
    rw [hsucceeded] at hblocked
    cases hblocked

theorem blocked_iff (h : d.Schedule delay clock start turns finish) {t : Turn} (ht : t ∈ turns) :
    t.outcome.status = .blocked ↔
      ∃ u ∈ turns, d.DependsOn t.step.name u.step.name ∧ u.outcome.HasFailed := by
  constructor
  · intro hstatus
    obtain ⟨before, after, hsplit⟩ := List.append_of_mem ht
    exact h.exists_failed hsplit hstatus
  · rintro ⟨u, hu, hdepends, hfailed⟩
    exact h.blocked_of_dependsOn ht hu hdepends hfailed

end Definition.Schedule

/-! ## 2. What a report says -/

/-- A step that was passed over: nothing was done, and the reason is the first dependency in its
own list that did not succeed. -/
structure Outcome.PassedOver (s : Step) (outcomes : List Outcome) (calls : List Call)
    (o : Outcome) : Prop where
  attempts : o.attempts = 0
  output : o.output = none
  startedAt : o.startedAt = none
  finishedAt : o.finishedAt = none
  uncalled : ∀ call ∈ calls, call.step ≠ s.name
  reason : ∃ front a back, s.dependencies = front ++ a :: back ∧
    (∀ b ∈ front, Succeeds outcomes b) ∧ ¬Succeeds outcomes a ∧
    o.error = some s!"upstream step '{a}' did not succeed"

/-- A step that ran: its first call comes after all that it lists has succeeded, both in the order
of the calls and in time. -/
structure Outcome.Executed (s : Step) (outcomes : List Outcome) (calls : List Call)
    (o : Outcome) : Prop where
  attempts : 1 ≤ o.attempts
  first : ∃ before call after, calls = before ++ call :: after ∧
    call.step = s.name ∧ call.attempt = 1 ∧ o.startedAt = some call.time ∧
    (∀ c ∈ before, c.step ≠ s.name) ∧ (∀ c ∈ call :: after, c.step ∉ s.dependencies) ∧
    ∀ a ∈ s.dependencies, ∃ p ∈ outcomes, p.step = a ∧ p.status = .succeeded ∧
      ∃ time, p.finishedAt = some time ∧ time ≤ call.time

/-- A report that accounts for each step of a definition by the calls that were made. -/
structure Report.Explained (d : Definition) (calls : List Call) (report : Report) : Prop where
  workflow : report.workflow = d.id
  /-- One outcome for each step, in the order of execution. -/
  order : ∃ order, d.executionOrder = .ok order ∧
    report.steps.map Outcome.step = order.map Step.name
  perm : (report.steps.map Outcome.step).Perm d.names
  nodup : (report.steps.map Outcome.step).Nodup
  blocked_iff : ∀ o ∈ report.steps, o.status = .blocked ↔
    ∃ p ∈ report.steps, d.DependsOn o.step p.step ∧ p.HasFailed
  passedOver : ∀ s ∈ d.steps, ∀ o ∈ report.steps, o.step = s.name → o.status = .blocked →
    o.PassedOver s report.steps calls
  executed : ∀ s ∈ d.steps, ∀ o ∈ report.steps, o.step = s.name → o.status ≠ .blocked →
    o.Executed s report.steps calls
  /-- The attempts of an outcome are the calls of its step, numbered from one. -/
  numbers : ∀ o ∈ report.steps,
    (calls.filter (·.step == o.step)).map Call.attempt = List.range' 1 o.attempts
  succeeded_iff : report.succeeded = true ↔ ∀ o ∈ report.steps, ¬o.HasFailed

namespace Definition.Schedule
variable {d : Definition} {delay clock start finish : Nat} {turns before after : List Turn}
  {t : Turn}

theorem name_ne (h : d.Schedule delay clock start turns finish)
    (hsplit : turns = before ++ t :: after) {u v : Turn} (hu : u ∈ before) (hv : v ∈ t :: after) :
    u.step.name ≠ v.step.name := by
  have hnodup := h.nodup
  rw [hsplit, List.map_append, List.nodup_append] at hnodup
  exact hnodup.2.2 _ (List.mem_map_of_mem hu) _ (List.mem_map_of_mem hv)

theorem name_ne_after (h : d.Schedule delay clock start turns finish)
    (hsplit : turns = before ++ t :: after) {v : Turn} (hv : v ∈ after) :
    v.step.name ≠ t.step.name := by
  have hsplit' : turns = (before ++ [t]) ++ after := by
    rw [hsplit, List.append_assoc, List.singleton_append]
  have hnodup := h.nodup
  rw [hsplit', List.map_append, List.nodup_append] at hnodup
  refine (hnodup.2.2 _ (List.mem_map_of_mem ?_) _ (List.mem_map_of_mem hv)).symm
  exact List.mem_append_right _ (List.mem_singleton_self t)

theorem call_step (h : d.Schedule delay clock start turns finish) {us : List Turn}
    (hus : us ⊆ turns) {call : Call} (hcall : call ∈ us.flatMap Turn.calls) :
    ∃ u ∈ us, call ∈ u.calls ∧ call.step = u.step.name := by
  obtain ⟨u, hu, hmem⟩ := List.mem_flatMap.mp hcall
  obtain ⟨before, after, hsplit⟩ := List.append_of_mem (hus hu)
  exact ⟨u, hu, hmem, (h.taken hsplit).2.own call hmem⟩

/-- The calls of a step are those of its turn. -/
theorem filter_calls (h : d.Schedule delay clock start turns finish)
    (hsplit : turns = before ++ t :: after) :
    (turns.flatMap Turn.calls).filter (·.step == t.step.name) = t.calls := by
  have hbefore : (before.flatMap Turn.calls).filter (·.step == t.step.name) = [] := by
    apply List.filter_eq_nil_iff.mpr
    intro call hcall heq
    obtain ⟨u, hu, -, hname⟩ := h.call_step (hsplit ▸ List.subset_append_left _ _) hcall
    rw [beq_iff_eq, hname] at heq
    exact h.name_ne hsplit hu List.mem_cons_self heq
  have hafter : (after.flatMap Turn.calls).filter (·.step == t.step.name) = [] := by
    apply List.filter_eq_nil_iff.mpr
    intro call hcall heq
    have hsub : after ⊆ turns := fun u hu =>
      hsplit ▸ List.mem_append_right _ (List.mem_cons_of_mem _ hu)
    obtain ⟨u, hu, -, hname⟩ := h.call_step hsub hcall
    rw [beq_iff_eq, hname] at heq
    exact h.name_ne_after hsplit hu heq
  have hself : t.calls.filter (·.step == t.step.name) = t.calls := by
    apply List.filter_eq_self.mpr
    intro call hcall
    rw [(h.taken hsplit).2.own call hcall, beq_self_eq_true]
  rw [hsplit, List.flatMap_append, List.flatMap_cons, List.filter_append, List.filter_append,
    hbefore, hafter, hself, List.nil_append, List.append_nil]

theorem passedOver (h : d.Schedule delay clock start turns finish) (ht : t ∈ turns)
    (hstatus : t.outcome.status = .blocked) :
    t.outcome.PassedOver t.step (turns.map Turn.outcome) (turns.flatMap Turn.calls) := by
  obtain ⟨front, a, back, hdeps, hfront, ha, hcalls, houtcome⟩ := h.skipped_of_status_eq ht hstatus
  obtain ⟨before, after, hsplit⟩ := List.append_of_mem ht
  refine ⟨by rw [houtcome]; rfl, by rw [houtcome]; rfl, by rw [houtcome]; rfl,
    by rw [houtcome]; rfl, fun call hcall hname => ?_, front, a, back, hdeps, hfront, ha, ?_⟩
  · have hmem : call ∈ t.calls := by
      rw [← h.filter_calls hsplit, List.mem_filter]
      exact ⟨hcall, beq_iff_eq.mpr hname⟩
    rw [hcalls] at hmem
    cases hmem
  · rw [houtcome]
    rfl

theorem finishedAt_of_succeeded (h : d.Schedule delay clock start turns finish) (ht : t ∈ turns)
    (hsucceeded : t.outcome.status = .succeeded) : t.outcome.finishedAt = some t.finish := by
  obtain ⟨before, after, hsplit⟩ := List.append_of_mem ht
  have hstatus : t.outcome.status ≠ .blocked := by
    rw [hsucceeded]
    decide
  exact ((h.taken hsplit).2.free_of_status_ne hstatus).2.finishedAt

theorem executed (h : d.Schedule delay clock start turns finish) (ht : t ∈ turns)
    (hstatus : t.outcome.status ≠ .blocked) :
    t.outcome.Executed t.step (turns.map Turn.outcome) (turns.flatMap Turn.calls) := by
  obtain ⟨before, after, hsplit⟩ := List.append_of_mem ht
  obtain ⟨hbefore, htaken⟩ := h.taken hsplit
  obtain ⟨hfree, hattempted⟩ := htaken.free_of_status_ne hstatus
  obtain ⟨rest, hcalls⟩ := hattempted.exists_calls
  have hsub : t :: after ⊆ turns := hsplit ▸ List.subset_append_right _ _
  refine ⟨?_, before.flatMap Turn.calls, ⟨t.step.name, 1, t.start⟩,
    rest ++ after.flatMap Turn.calls, ?_, rfl, rfl, hattempted.startedAt, ?_, ?_, ?_⟩
  · rw [hattempted.attempts_eq, hcalls, List.length_cons]
    omega
  · rw [hsplit, List.flatMap_append, List.flatMap_cons, hcalls, List.cons_append]
  · intro call hcall heq
    obtain ⟨u, hu, -, hname⟩ := h.call_step (hsplit ▸ List.subset_append_left _ _) hcall
    exact h.name_ne hsplit hu List.mem_cons_self (hname.symm.trans heq)
  · -- A later call of a dependency would be a second turn of the same name.
    intro call hcall ha
    rw [← List.cons_append, ← hcalls, ← List.flatMap_cons] at hcall
    obtain ⟨v, hv, -, hname⟩ := h.call_step hsub hcall
    obtain ⟨u, hu, hdep⟩ := h.exists_before hsplit ha
    exact h.name_ne hsplit hu hv (hdep.trans hname)
  · intro a ha
    obtain ⟨o, ho, hname, hsucceeded⟩ := Step.blockedBy?_eq_none_iff.mp hfree a ha
    obtain ⟨u, hu, rfl⟩ := List.mem_map.mp ho
    have hmem : u ∈ turns := hsplit ▸ List.mem_append_left _ hu
    exact ⟨u.outcome, List.mem_map_of_mem hmem, hname, hsucceeded, u.finish,
      h.finishedAt_of_succeeded hmem hsucceeded, hbefore.finish_le u hu⟩

theorem succeeded_iff (h : d.Schedule delay clock start turns finish) (id : String) :
    (Report.mk id (turns.map Turn.outcome)).succeeded = true ↔
      ∀ o ∈ turns.map Turn.outcome, ¬o.HasFailed := by
  rw [Report.succeeded, List.all_eq_true]
  constructor
  · intro hall o ho hfailed
    have hsucceeded := beq_iff_eq.mp (hall o ho)
    rcases hfailed with hstatus | hstatus <;> rw [hsucceeded] at hstatus <;> cases hstatus
  · intro hall o ho
    obtain ⟨t, ht, rfl⟩ := List.mem_map.mp ho
    cases hstatus : t.outcome.status with
    | succeeded => exact beq_iff_eq.mpr hstatus
    | failed => exact absurd (Or.inl hstatus) (hall _ ho)
    | timedOut => exact absurd (Or.inr hstatus) (hall _ ho)
    | blocked =>
      obtain ⟨u, hu, -, hfailed⟩ := (h.blocked_iff ht).mp hstatus
      exact absurd hfailed (hall _ (List.mem_map_of_mem hu))

theorem explained (h : d.Schedule delay clock start turns finish) :
    Report.Explained d (turns.flatMap Turn.calls) ⟨d.id, turns.map Turn.outcome⟩ := by
  have hnames : (turns.map Turn.outcome).map Outcome.step = turns.map fun t => t.step.name := by
    rw [List.map_map]
    exact List.map_congr_left fun t ht => h.outcome_step ht
  refine ⟨rfl, ⟨_, h.order, ?_⟩, ?_, ?_, ?_, ?_, ?_, ?_, h.succeeded_iff d.id⟩
  · rw [hnames, List.map_map]
    rfl
  · rw [hnames]
    have hperm := h.perm.map Step.name
    rwa [List.map_map] at hperm
  · rw [hnames]
    exact h.nodup
  · intro o ho
    obtain ⟨t, ht, rfl⟩ := List.mem_map.mp ho
    rw [h.blocked_iff ht, h.outcome_step ht]
    constructor
    · rintro ⟨u, hu, hdepends, hfailed⟩
      rw [← h.outcome_step hu] at hdepends
      exact ⟨u.outcome, List.mem_map_of_mem hu, hdepends, hfailed⟩
    · rintro ⟨p, hp, hdepends, hfailed⟩
      obtain ⟨u, hu, rfl⟩ := List.mem_map.mp hp
      rw [h.outcome_step hu] at hdepends
      exact ⟨u, hu, hdepends, hfailed⟩
  · intro s hs o ho hname hstatus
    obtain ⟨t, ht, rfl⟩ := List.mem_map.mp ho
    rw [← h.step_eq ht hs ((h.outcome_step ht).symm.trans hname)]
    exact h.passedOver ht hstatus
  · intro s hs o ho hname hstatus
    obtain ⟨t, ht, rfl⟩ := List.mem_map.mp ho
    rw [← h.step_eq ht hs ((h.outcome_step ht).symm.trans hname)]
    exact h.executed ht hstatus
  · intro o ho
    obtain ⟨t, ht, rfl⟩ := List.mem_map.mp ho
    obtain ⟨before, after, hsplit⟩ := List.append_of_mem ht
    rw [h.outcome_step ht, h.filter_calls hsplit]
    exact (h.taken hsplit).2.numbers

end Definition.Schedule

/-! ## 3. Runs of a definition, alone and in a runner -/

/-- A run of a definition from a time on has ended, with its calls and its report. -/
def Definition.Ran (d : Definition) (handlers : String → Option Handler) (delay start : Nat)
    (calls : List Call) (report : Report) : Prop :=
  ∃ order jobs clock finish, d.executionOrder = .ok order ∧ assign handlers order = .ok jobs ∧
    runJobs delay clock jobs [] start = ⟨calls, .finished report.steps finish⟩ ∧
    report.workflow = d.id

theorem Definition.exists_schedule_of_runJobs {d : Definition}
    {handlers : String → Option Handler} {order : List Step} {jobs : List (Step × Handler)}
    {delay clock start finish : Nat} {calls : List Call} {outcomes : List Outcome}
    (horder : d.executionOrder = .ok order) (hassign : assign handlers order = .ok jobs)
    (hrun : runJobs delay clock jobs [] start = ⟨calls, .finished outcomes finish⟩) :
    ∃ turns, d.Schedule delay clock start turns finish ∧
      (∀ t ∈ turns, handlers t.step.name = some t.handler) ∧
      outcomes = turns.map Turn.outcome ∧ calls = turns.flatMap Turn.calls := by
  obtain ⟨turns, hturns, rfl, houtcomes, hcalls⟩ := turns_of_runJobs hrun
  obtain ⟨hsteps, hfound⟩ := assign_eq_ok hassign
  rw [List.map_map] at hsteps
  exact ⟨turns, ⟨hsteps ▸ horder, hturns⟩, fun t ht => hfound _ (List.mem_map_of_mem ht),
    houtcomes, hcalls⟩

theorem Definition.Ran.exists_schedule {d : Definition} {handlers : String → Option Handler}
    {delay start : Nat} {calls : List Call} {report : Report}
    (h : d.Ran handlers delay start calls report) :
    ∃ clock turns finish, d.Schedule delay clock start turns finish ∧
      (∀ t ∈ turns, handlers t.step.name = some t.handler) ∧
      report = ⟨d.id, turns.map Turn.outcome⟩ ∧ calls = turns.flatMap Turn.calls := by
  obtain ⟨order, jobs, clock, finish, horder, hassign, hrun, hworkflow⟩ := h
  obtain ⟨turns, hschedule, hfound, houtcomes, hcalls⟩ :=
    exists_schedule_of_runJobs horder hassign hrun
  obtain ⟨workflow, outcomes⟩ := report
  subst hworkflow houtcomes
  exact ⟨clock, turns, finish, hschedule, hfound, rfl, hcalls⟩

theorem Definition.Ran.explained {d : Definition} {handlers : String → Option Handler}
    {delay start : Nat} {calls : List Call} {report : Report}
    (h : d.Ran handlers delay start calls report) : report.Explained d calls := by
  obtain ⟨clock, turns, finish, hschedule, -, rfl, rfl⟩ := h.exists_schedule
  exact hschedule.explained

/-- The handlers of a plan when its attempts were let through their gates at such times. -/
def Plan.handlers (p : Plan) (passages : List Passage) : String → Option Handler :=
  fun name => (p.workers.lookup name).map fun worker => worker.handler name passages

theorem LiveRun.ran {p : Plan} {run : LiveRun} {delay clock finish : Nat} {calls : List Call}
    {outcomes : List Outcome} (hjobs : p.jobs = .ok run.jobs)
    (hworkflow : run.workflow = p.definition.id)
    (h : run.progress delay clock = ⟨calls, .finished outcomes finish⟩) :
    p.definition.Ran (p.handlers run.passages) delay run.start calls ⟨run.workflow, outcomes⟩ := by
  obtain ⟨order, horder, hassign⟩ := Plan.jobs_eq_ok hjobs
  have hhandlers := assign_map (fun name worker => worker.handler name run.passages) hassign
  exact ⟨order, _, clock, finish, horder, hhandlers, h, hworkflow⟩

namespace Runner

/-- Every live run has been accepted, every run that has finished was a run of an accepted plan, and
the reports are those of finished runs. -/
structure Traced (delay : Nat) (events : List Event) (r : Runner) : Prop where
  live : ∀ run ∈ r.live, ∃ p, .accepted run.ticket p ∈ events ∧ p.jobs = .ok run.jobs ∧
    run.workflow = p.definition.id
  finished : ∀ ticket calls report, .finished ticket calls report ∈ events →
    ∃ p passages start, .accepted ticket p ∈ events ∧
      p.definition.Ran (p.handlers passages) delay start calls report
  ended : ∀ e ∈ r.ended, ∀ report, e.result = .ok report →
    ∃ calls, .finished e.ticket calls report ∈ events

namespace Traced
variable {delay : Nat} {events more : List Event} {r s : Runner}

theorem init : Traced delay [] { delay } := by
  refine ⟨?_, ?_, ?_⟩ <;> simp

/-- Fewer live runs and fewer results, after events among which runs of accepted plans finish. -/
theorem mono (h : Traced delay events r) (hlive : s.live ⊆ r.live) (hended : s.ended ⊆ r.ended)
    (hmore : ∀ ticket calls report, .finished ticket calls report ∈ more →
      ∃ p passages start, .accepted ticket p ∈ events ∧
        p.definition.Ran (p.handlers passages) delay start calls report) :
    Traced delay (events ++ more) s := by
  refine ⟨fun run hrun => ?_, fun ticket calls report hfinished => ?_,
    fun e he report hreport => ?_⟩
  · obtain ⟨p, hp, hjobs⟩ := h.live run (hlive hrun)
    exact ⟨p, List.mem_append_left _ hp, hjobs⟩
  · have hran : ∃ p passages start, .accepted ticket p ∈ events ∧
        p.definition.Ran (p.handlers passages) delay start calls report := by
      rcases List.mem_append.mp hfinished with hfinished | hfinished
      · exact h.finished ticket calls report hfinished
      · exact hmore ticket calls report hfinished
    obtain ⟨p, passages, start, hp, hran⟩ := hran
    exact ⟨p, passages, start, List.mem_append_left _ hp, hran⟩
  · obtain ⟨calls, hfinished⟩ := h.ended e (hended he) report hreport
    exact ⟨calls, List.mem_append_left _ hfinished⟩

theorem change (h : Traced delay events r) (hdelay : r.delay = delay) (hchange : Change r more s) :
    Traced delay (events ++ more) s := by
  cases hchange with
  | @accept p jobs enter =>
    have hold : Traced delay (events ++ [.accepted r.tickets p]) r :=
      h.mono (List.Subset.refl _) (List.Subset.refl _) (by simp)
    refine ⟨fun run hrun => ?_, hold.finished, hold.ended⟩
    rcases List.mem_append.mp hrun with hrun | hrun
    · exact hold.live run hrun
    · rw [List.mem_singleton.mp hrun]
      exact ⟨p, List.mem_append_right _ (List.mem_singleton_self _), (enter_eq_ok enter).1, rfl⟩
  | @refuse p failure enter =>
    have hold : Traced delay (events ++ [.refused r.tickets failure]) r :=
      h.mono (List.Subset.refl _) (List.Subset.refl _) (by simp)
    refine ⟨hold.live, hold.finished, fun e he report hreport => ?_⟩
    rcases List.mem_append.mp he with he | he
    · exact hold.ended e he report hreport
    · rw [List.mem_singleton.mp he] at hreport
      cases hreport
  | @finish run calls outcomes time live ended =>
    -- The plan that was accepted for the run is the one that has been run.
    obtain ⟨p, hp, hjobs, hworkflow⟩ := h.live run live
    have hran := LiveRun.ran hjobs hworkflow ended
    rw [hdelay] at hran
    have hold : Traced delay (events ++ [.finished run.ticket calls ⟨run.workflow, outcomes⟩])
        (r.drop { run with calls }) := by
      refine h.mono List.filter_sublist.subset (List.Subset.refl _) ?_
      intro ticket calls' report hmem
      cases List.mem_singleton.mp hmem
      exact ⟨p, run.passages, run.start, hp, hran⟩
    refine ⟨hold.live, hold.finished, fun e he report hreport => ?_⟩
    rcases List.mem_append.mp he with he | he
    · exact hold.ended e he report hreport
    · rw [List.mem_singleton.mp he] at hreport ⊢
      cases hreport
      exact ⟨calls, List.mem_append_right _ (List.mem_singleton_self _)⟩
  | cancel => exact h.mono List.filter_sublist.subset (List.Subset.refl _) (by simp)
  | @proceed run live passages calls =>
    have hold : Traced delay (events ++ []) r :=
      h.mono (List.Subset.refl _) (List.Subset.refl _) (by simp)
    refine ⟨fun other hother => ?_, hold.finished, hold.ended⟩
    obtain ⟨old, hmem, hreplaced⟩ := List.mem_map.mp hother
    split at hreplaced
    · rw [← hreplaced]
      exact hold.live run live
    · rw [← hreplaced]
      exact hold.live old hmem
  | aside => exact h.mono (List.Subset.refl _) (List.Subset.refl _) (by simp)
  | forget => exact h.mono (List.Subset.refl _) List.filter_sublist.subset (by simp)

theorem of_history (h : History delay events r) : Traced delay events r := by
  unfold History at h
  induction h with
  | refl => exact init
  | tail first last ih => exact ih.change (Changes.delay_eq first) last

end Traced

end Runner

/-- A report accounts for all steps of its definition, whatever the handlers do. In a runner each
report is that of a run which has finished, and it accounts for the plan that was accepted for it,
whatever else goes on. -/
theorem report_explained :
    (∀ (d : Definition) (handlers : String → Option Handler) (delay start : Nat)
      (calls : List Call) (report : Report),
      d.Ran handlers delay start calls report → report.Explained d calls) ∧
    ∀ (delay : Nat) (events : List Event) (r : Runner), Runner.History delay events r →
      (∀ ticket calls report, .finished ticket calls report ∈ events →
        ∃ p, .accepted ticket p ∈ events ∧ report.Explained p.definition calls) ∧
      ∀ e ∈ r.ended, ∀ report, e.result = .ok report →
        ∃ calls, .finished e.ticket calls report ∈ events := by
  refine ⟨fun d handlers delay start calls report h => h.explained, fun delay events r h => ?_⟩
  have htraced := Runner.Traced.of_history h
  refine ⟨fun ticket calls report hfinished => ?_, htraced.ended⟩
  obtain ⟨p, passages, start, hp, hran⟩ := htraced.finished ticket calls report hfinished
  exact ⟨p, hp, hran.explained⟩

/-- A failure that blocks one step directly and another through it; a fourth step is independent. -/
def chainedPlan : Plan :=
  ⟨{ id := "sync", steps := [{ name := "report", dependencies := ["load"] },
      { name := "load", dependencies := ["fetch"] }, { name := "fetch" }, { name := "clean" }] },
    [("report", fun _ => { answer := .ok .null }), ("load", fun _ => { answer := .ok .null }),
      ("fetch", fun _ => { answer := .error (.database "gone") }),
      ("clean", fun _ => { answer := .ok .null })]⟩

/-- The report of a run of it. -/
def chainedReport : Report :=
  ⟨"sync", [⟨"fetch", .failed, 1, none, some "database error: gone", some 0, some 0⟩,
    .blocked "load" "fetch", .blocked "report" "load", .succeeded "clean" 1 .null 0 0]⟩

theorem report_explained_chained :
    chainedPlan.definition.Ran (chainedPlan.handlers []) 0 0
        [⟨"fetch", 1, 0⟩, ⟨"clean", 1, 0⟩] chainedReport ∧
      chainedReport.Explained chainedPlan.definition [⟨"fetch", 1, 0⟩, ⟨"clean", 1, 0⟩] := by
  have hran : chainedPlan.definition.Ran (chainedPlan.handlers []) 0 0
      [⟨"fetch", 1, 0⟩, ⟨"clean", 1, 0⟩] chainedReport :=
    ⟨_, _, 0, 0, rfl, rfl, rfl, rfl⟩
  exact ⟨hran, report_explained.1 _ _ _ _ _ _ hran⟩

end MediaCatalog.Workflow
