import MediaCatalog.Proofs.Workflow.Order
import MediaCatalog.Workflow.Runner

/-!
# Admission — which runs can start

A run needs a valid definition, then a handler for every step, then a free slot. The first of these
that is missing decides how the run is refused.
-/

namespace MediaCatalog.Workflow

/-! ## 1. Handlers for steps -/

section Assign
variable {α : Type} {found : String → Option α} {steps : List Step}

theorem assign_cons_of_some {s : Step} {a : α} (h : found s.name = some a) :
    assign found (s :: steps) = (assign found steps).map ((s, a) :: ·) := by
  simp only [assign, h]
  cases assign found steps <;> rfl

theorem assign_cons_of_none {s : Step} (h : found s.name = none) :
    assign found (s :: steps) = .error (.missingHandler s.name) := by
  rw [assign, h]

/-- The jobs are the steps in their order, each with what is found under its name. -/
theorem assign_eq_ok {jobs : List (Step × α)} (h : assign found steps = .ok jobs) :
    jobs.map Prod.fst = steps ∧ ∀ job ∈ jobs, found job.1.name = some job.2 := by
  induction steps generalizing jobs with
  | nil =>
    rw [assign, Except.ok.injEq] at h
    subst h
    exact ⟨rfl, by simp⟩
  | cons s steps ih =>
    cases hfound : found s.name with
    | none => rw [assign_cons_of_none hfound] at h; cases h
    | some a =>
      rw [assign_cons_of_some hfound] at h
      cases hrest : assign found steps with
      | error failure => rw [hrest] at h; cases h
      | ok rest =>
        rw [hrest, Except.map, Except.ok.injEq] at h
        subst h
        obtain ⟨hsteps, hall⟩ := ih hrest
        refine ⟨by rw [List.map_cons, hsteps], fun job hjob => ?_⟩
        rcases List.mem_cons.mp hjob with rfl | hjob
        · exact hfound
        · exact hall job hjob

/-- What is found may be adapted to each step at once. -/
theorem assign_map {β : Type} {jobs : List (Step × α)} (adapt : String → α → β)
    (h : assign found steps = .ok jobs) :
    assign (fun name => (found name).map (adapt name)) steps =
      .ok (jobs.map fun (s, a) => (s, adapt s.name a)) := by
  induction steps generalizing jobs with
  | nil =>
    rw [assign, Except.ok.injEq] at h
    subst h
    rfl
  | cons s steps ih =>
    cases hfound : found s.name with
    | none => rw [assign_cons_of_none hfound] at h; cases h
    | some a =>
      rw [assign_cons_of_some hfound] at h
      cases hrest : assign found steps with
      | error failure => rw [hrest] at h; cases h
      | ok rest =>
        rw [hrest, Except.map, Except.ok.injEq] at h
        subst h
        have hadapted : (found s.name).map (adapt s.name) = some (adapt s.name a) := by
          rw [hfound, Option.map_some]
        rw [assign_cons_of_some hadapted, ih hrest]
        rfl

/-- The refusal names the first step without a handler. -/
theorem assign_eq_error {failure : Failure} (h : assign found steps = .error failure) :
    ∃ before s after, steps = before ++ s :: after ∧ found s.name = none ∧
      (∀ t ∈ before, (found t.name).isSome) ∧ failure = .missingHandler s.name := by
  induction steps with
  | nil => rw [assign] at h; cases h
  | cons s steps ih =>
    cases hfound : found s.name with
    | none =>
      rw [assign_cons_of_none hfound, Except.error.injEq] at h
      exact ⟨[], s, steps, rfl, hfound, by simp, h.symm⟩
    | some a =>
      rw [assign_cons_of_some hfound] at h
      cases hrest : assign found steps with
      | ok rest => rw [hrest] at h; cases h
      | error failure' =>
        rw [hrest, Except.map, Except.error.injEq] at h
        subst h
        obtain ⟨before, t, after, hsplit, hnone, hall, hfailure⟩ := ih hrest
        refine ⟨s :: before, t, after, by rw [hsplit, List.cons_append], hnone, ?_, hfailure⟩
        intro u hu
        rcases List.mem_cons.mp hu with rfl | hu
        · rw [hfound]; rfl
        · exact hall u hu

theorem exists_assign (h : ∀ s ∈ steps, (found s.name).isSome) :
    ∃ jobs, assign found steps = .ok jobs := by
  cases hassign : assign found steps with
  | ok jobs => exact ⟨jobs, rfl⟩
  | error failure =>
    obtain ⟨before, s, after, hsplit, hnone, -⟩ := assign_eq_error hassign
    have hsome := h s (hsplit ▸ List.mem_append_right _ List.mem_cons_self)
    rw [hnone] at hsome
    cases hsome

end Assign

/-! ## 2. Plans -/

namespace Plan

/-- Each step has work of its own. -/
def HasWorkers (p : Plan) : Prop :=
  ∀ s ∈ p.definition.steps, (p.workers.lookup s.name).isSome

theorem jobs_eq_ok {p : Plan} {found : List (Step × Worker)} (h : p.jobs = .ok found) :
    ∃ order, p.definition.executionOrder = .ok order ∧
      assign (fun name => p.workers.lookup name) order = .ok found := by
  unfold jobs at h
  split at h
  next => cases h
  next order horder => exact ⟨order, horder, h⟩

theorem exists_jobs {p : Plan} (hvalid : p.definition.isValid = true) (hworkers : p.HasWorkers) :
    ∃ jobs, p.jobs = .ok jobs := by
  obtain ⟨order, hplace, horder⟩ := Definition.executionOrder_of_isValid hvalid
  obtain ⟨hperm, -⟩ := Definition.perm_of_place hplace
  obtain ⟨jobs, hjobs⟩ : ∃ jobs, assign (fun name => p.workers.lookup name) order = .ok jobs :=
    exists_assign fun s hs => hworkers s (hperm.subset hs)
  refine ⟨jobs, ?_⟩
  unfold Plan.jobs
  rw [horder]
  exact hjobs

/-- A plan by itself is refused for its definition or for a missing handler. -/
theorem jobs_eq_error {p : Plan} {failure : Failure} (h : p.jobs = .error failure) :
    failure = .invalidWorkflow p.definition.id p.definition.errorMessages ∨
      ∃ name, failure = .missingHandler name := by
  unfold jobs at h
  split at h
  next failure' horder =>
    rw [Except.error.injEq] at h
    subst h
    cases hvalid : p.definition.isValid with
    | false =>
      rw [Definition.executionOrder_of_not_isValid hvalid, Except.error.injEq] at horder
      exact Or.inl horder.symm
    | true =>
      obtain ⟨order, -, hok⟩ := Definition.executionOrder_of_isValid hvalid
      rw [hok] at horder
      cases horder
  next order horder =>
    obtain ⟨-, s, -, -, -, -, hfailure⟩ := assign_eq_error h
    exact Or.inr ⟨s.name, hfailure⟩

end Plan

/-! ## 3. Slots -/

namespace Runner

theorem enter_of_jobs_ok {p : Plan} {r : Runner} {jobs : List (Step × Worker)}
    (h : p.jobs = .ok jobs) :
    r.enter p =
      if p.definition.maxActiveRuns.toNat ≤ r.slots.count p.definition.id then
        .error (.tooManyActiveRuns p.definition.id (r.slots.count p.definition.id))
      else .ok jobs := by
  rw [enter, h]

theorem enter_of_jobs_error {p : Plan} {r : Runner} {failure : Failure}
    (h : p.jobs = .error failure) : r.enter p = .error failure := by
  rw [enter, h]

theorem enter_eq_ok {p : Plan} {r : Runner} {jobs : List (Step × Worker)}
    (h : r.enter p = .ok jobs) :
    p.jobs = .ok jobs ∧ r.slots.count p.definition.id < p.definition.maxActiveRuns.toNat := by
  cases hjobs : p.jobs with
  | error failure => rw [enter_of_jobs_error hjobs] at h; cases h
  | ok found =>
    rw [enter_of_jobs_ok hjobs] at h
    split at h
    next => cases h
    next hfree =>
      rw [Except.ok.injEq] at h
      exact ⟨by rw [h], Nat.lt_of_not_le hfree⟩

theorem enter_eq_tooManyActiveRuns {p : Plan} {r : Runner} {id : String} {n : Nat}
    (h : r.enter p = .error (.tooManyActiveRuns id n)) :
    id = p.definition.id ∧ n = r.slots.count p.definition.id ∧
      p.definition.maxActiveRuns.toNat ≤ n := by
  cases hjobs : p.jobs with
  | error failure =>
    rw [enter_of_jobs_error hjobs, Except.error.injEq] at h
    subst h
    rcases p.jobs_eq_error hjobs with h | ⟨name, h⟩ <;> cases h
  | ok found =>
    rw [enter_of_jobs_ok hjobs] at h
    split at h
    next hfull =>
      rw [Except.error.injEq] at h
      injection h with hid hn
      exact ⟨hid.symm, hn.symm, hn ▸ hfull⟩
    next => cases h

end Runner

end MediaCatalog.Workflow
