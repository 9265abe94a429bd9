import Mathlib.Data.List.Find
import MediaCatalog.Proofs.Workflow.Report
import MediaCatalog.Proofs.Workflow.Slots

/-!
# Independence — what becomes of a step follows from the step itself and from what it needs

A run threads its outcomes and the time through all steps. If handlers do not look at the time, what
becomes of a step can be said without a run: `Definition.Fate` speaks of the step and of the fates of
its dependencies only. Every run agrees with it, in whatever order the steps come.
-/

namespace MediaCatalog.Workflow

/-- An attempt is the same at any time. -/
def Handler.IsSteady (handler : Handler) : Prop :=
  ∀ start start' number, handler start number = handler start' number

/-- What became of a step, its times left out. -/
structure Result where
  status : Status
  attempts : Nat
  output : Option Json
  error : Option String
  deriving DecidableEq

instance : Inhabited Result :=
  ⟨⟨.blocked, 0, none, none⟩⟩

def Outcome.result (o : Outcome) : Result :=
  ⟨o.status, o.attempts, o.output, o.error⟩

def Result.isSuccess (r : Result) : Bool :=
  r.status == .succeeded

@[simp]
theorem Outcome.isSuccess_result (o : Outcome) : o.result.isSuccess = o.isSuccess :=
  rfl

/-! ## 1. The result of a step that is executed -/

namespace Step

theorem ending?_eq_map (s : Step) (start : Nat) (a : Attempt) :
    s.ending? start a = (s.ending? 0 a).map fun e => (start + e.1, e.2) := by
  unfold ending?
  split
  · rfl
  · simp
  · simp
  · split <;> simp

/-- The result of the attempts from one with a number on, none if one of them does not end. -/
def result? (s : Step) (work : Nat → Attempt) : (left number : Nat) → Option Result
  | 0, _ => none
  | left + 1, number =>
    match s.ending? 0 (work number) with
    | none => none
    | some (_, answer) =>
      match answer, left with
      | .ok output, _ => some (Outcome.succeeded s.name number output 0 0).result
      | .error failure, 0 => some (Outcome.failed s.name number failure 0 0).result
      | .error _, left + 1 => s.result? work (left + 1) (number + 1)

section Steady
variable {s : Step} {handler : Handler} (hsteady : handler.IsSteady) {left number : Nat}
include hsteady

/-- Attempts have that result, whenever they are made. -/
theorem Trials.result? {delay start : Nat} {before : List Trial} {last : Trial}
    (h : s.Trials handler delay left number start before last) (began : Nat) :
    s.result? (handler 0) left number = some (last.outcome s.name began).result := by
  have hsame : ∀ {start number finish : Nat} {answer : Except Failure Json},
      s.ending? start (handler start number) = some (finish, answer) →
        ∃ length, s.ending? 0 (handler 0 number) = some (length, answer) := by
    intro start number finish answer h
    rw [hsteady start 0 number, ending?_eq_map, Option.map_eq_some_iff] at h
    obtain ⟨⟨length, answer⟩, hending, heq⟩ := h
    cases heq
    exact ⟨length, hending⟩
  induction h with
  | succeeded ending | failed ending =>
    obtain ⟨length, hending⟩ := hsame ending
    rw [Step.result?, hending]
    rfl
  | retried ending _ ih =>
    obtain ⟨length, hending⟩ := hsame ending
    rw [Step.result?, hending]
    exact ih

/-- If there is a result, the attempts end. -/
theorem exists_trials_of_result? {r : Result} (h : s.result? (handler 0) left number = some r)
    (delay start : Nat) :
    ∃ before last, s.Trials handler delay left number start before last := by
  induction left generalizing number start with
  | zero => cases h
  | succ left ih =>
    rw [result?] at h
    cases hending : s.ending? 0 (handler 0 number) with
    | none => rw [hending] at h; cases h
    | some e =>
      obtain ⟨length, answer⟩ := e
      have hreal : s.ending? start (handler start number) = some (start + length, answer) := by
        rw [hsteady start 0 number, ending?_eq_map, hending, Option.map_some]
      rw [hending] at h
      cases answer with
      | ok output => exact ⟨_, _, .succeeded hreal⟩
      | error failure =>
        cases left with
        | zero => exact ⟨_, _, .failed hreal⟩
        | succ left =>
          obtain ⟨before, last, hrest⟩ := ih h (start + length + delay)
          exact ⟨_, _, .retried hreal hrest⟩

end Steady

/-- What a step comes to if its dependencies come to the given results. -/
def verdict? (s : Step) (handler? : Option Handler) (results : String → Result) : Option Result :=
  match s.dependencies.find? fun a => !(results a).isSuccess with
  | some a => some (Outcome.blocked s.name a).result
  | none => handler?.bind fun handler => s.result? (handler 0) s.maxAttempts 1

theorem verdict?_congr {s : Step} {handler? : Option Handler} {results results' : String → Result}
    (h : ∀ a ∈ s.dependencies, results a = results' a) :
    s.verdict? handler? results = s.verdict? handler? results' := by
  have hfind : (s.dependencies.find? fun a => !(results a).isSuccess) =
      s.dependencies.find? fun a => !(results' a).isSuccess :=
    List.find?_congr fun a ha => by rw [h a ha]
  rw [verdict?, verdict?, hfind]

end Step

/-! ## 2. Fates -/

namespace Definition

/-- What becomes of the step of a name, told from the step, its handler and what becomes of its
dependencies. -/
inductive Fate (d : Definition) (handlers : String → Option Handler) : String → Result → Prop where
  | intro {s : Step} {results : String → Result} {r : Result} (declared : d.step? s.name = some s)
      (dependencies : ∀ a ∈ s.dependencies, Fate d handlers a (results a))
      (verdict : s.verdict? (handlers s.name) results = some r) : Fate d handlers s.name r

theorem Fate.exists_results {d : Definition} {handlers : String → Option Handler} {a : String}
    {r : Result} {s : Step} (h : d.Fate handlers a r) (hstep : d.step? a = some s) :
    ∃ results : String → Result, (∀ b ∈ s.dependencies, d.Fate handlers b (results b)) ∧
      s.verdict? (handlers a) results = some r := by
  cases h with
  | @intro t results _ declared dependencies verdict =>
    rw [declared, Option.some.injEq] at hstep
    subst hstep
    exact ⟨results, dependencies, verdict⟩

theorem Fate.unique {d : Definition} {handlers : String → Option Handler} {a : String}
    {r r' : Result} (h : d.Fate handlers a r) (h' : d.Fate handlers a r') : r = r' := by
  induction h generalizing r' with
  | @intro s results r declared dependencies verdict ih =>
    obtain ⟨results', dependencies', verdict'⟩ := h'.exists_results declared
    have hresults : ∀ a ∈ s.dependencies, results a = results' a := fun a ha =>
      ih a ha (dependencies' a ha)
    rw [Step.verdict?_congr hresults, verdict', Option.some.injEq] at verdict
    exact verdict.symm

/-- A step and all that it needs, directly or through others. -/
def Reaches (d : Definition) : String → String → Prop :=
  Relation.ReflTransGen d.Requires

/-- The handlers of a step and of all that it needs do not look at the time. -/
def IsSteady (d : Definition) (handlers : String → Option Handler) (a : String) : Prop :=
  ∀ b, d.Reaches a b → ∀ handler, handlers b = some handler → handler.IsSteady

theorem mem_of_step? {d : Definition} {a : String} {s : Step} (h : d.step? a = some s) :
    s ∈ d.steps ∧ s.name = a := by
  have hname := List.find?_some h
  exact ⟨List.mem_of_find?_eq_some h, beq_iff_eq.mp hname⟩

theorem step?_eq_some_iff {d : Definition} (hnodup : d.names.Nodup) {a : String} {s : Step} :
    d.step? a = some s ↔ s ∈ d.steps ∧ s.name = a := by
  refine ⟨mem_of_step?, fun ⟨hs, hname⟩ => ?_⟩
  have hsome : (d.step? a).isSome := by
    rw [step?, List.find?_isSome]
    exact ⟨s, hs, beq_iff_eq.mpr hname⟩
  obtain ⟨t, ht⟩ := Option.isSome_iff_exists.mp hsome
  obtain ⟨hmem, htname⟩ := mem_of_step? ht
  rw [ht, eq_of_name_eq hnodup hmem hs (htname.trans hname.symm)]

theorem requires_of_step? {d : Definition} {a b : String} {s : Step} (h : d.step? a = some s)
    (hb : b ∈ s.dependencies) : d.Requires a b :=
  ⟨s, (mem_of_step? h).1, (mem_of_step? h).2, hb⟩

/-- Two definitions have the same step under a name, with the same handler, and so with all that the
step needs. The handlers do not look at the time. -/
structure AgreesOn (d : Definition) (handlers : String → Option Handler) (d' : Definition)
    (handlers' : String → Option Handler) (a : String) : Prop where
  step? : ∀ b, d.Reaches a b → d'.step? b = d.step? b
  handler : ∀ b, d.Reaches a b → handlers' b = handlers b
  steady : d.IsSteady handlers a

namespace AgreesOn
variable {d d' : Definition} {handlers handlers' : String → Option Handler} {a b : String}

theorem of_requires (h : d.AgreesOn handlers d' handlers' a) (hb : d.Requires a b) :
    d.AgreesOn handlers d' handlers' b where
  step? c hc := h.step? c (.head hb hc)
  handler c hc := h.handler c (.head hb hc)
  steady c hc := h.steady c (.head hb hc)

theorem fate (h : d.AgreesOn handlers d' handlers' a) {r : Result} (hfate : d.Fate handlers a r) :
    d'.Fate handlers' a r := by
  induction hfate with
  | @intro s results r declared dependencies verdict ih =>
    have hsame := h.step? s.name .refl
    rw [← h.handler s.name .refl] at verdict
    refine .intro (hsame.trans declared) (fun b hb => ih b hb ?_) verdict
    exact h.of_requires (requires_of_step? declared hb)

/-- What a step needs is the same in the other definition. -/
theorem reaches (h : d.AgreesOn handlers d' handlers' a) (hnodup : d'.names.Nodup)
    (hb : d'.Reaches a b) : d.Reaches a b := by
  induction hb with
  | refl => exact .refl
  | @tail b c _ hrequires ih =>
    obtain ⟨s, hs, hname, hc⟩ := hrequires
    have hstep : d'.step? b = some s := (step?_eq_some_iff hnodup).mpr ⟨hs, hname⟩
    rw [h.step? b ih] at hstep
    exact ih.tail (requires_of_step? hstep hc)

theorem steady_right (h : d.AgreesOn handlers d' handlers' a) (hnodup : d'.names.Nodup) :
    d'.IsSteady handlers' a := by
  intro b hb handler hfound
  have hreaches := h.reaches hnodup hb
  rw [h.handler b hreaches] at hfound
  exact h.steady b hreaches handler hfound

end AgreesOn

end Definition

/-! ## 3. Runs agree with the fates -/

section Runs
variable {d : Definition} {handlers : String → Option Handler}

/-- The outcomes so far say as much of the dependencies of a step as their fates. -/
theorem blockedBy?_eq_find? {s : Step} {done : List Outcome} {results : String → Result}
    (hdone : ∀ o ∈ done, o.step ∈ s.dependencies → d.Fate handlers o.step o.result)
    (hall : ∀ a ∈ s.dependencies, a ∈ done.map Outcome.step)
    (hresults : ∀ a ∈ s.dependencies, d.Fate handlers a (results a)) :
    s.blockedBy? done = s.dependencies.find? fun a => !(results a).isSuccess := by
  refine List.find?_congr fun a ha => congrArg not (Bool.eq_iff_iff.mpr ?_)
  rw [List.any_eq_true]
  constructor
  · rintro ⟨o, ho, hsucceeded⟩
    rw [Bool.and_eq_true, beq_iff_eq] at hsucceeded
    obtain ⟨rfl, hsuccess⟩ := hsucceeded
    rwa [← (hdone o ho ha).unique (hresults o.step ha)]
  · intro hsuccess
    obtain ⟨o, ho, rfl⟩ := List.mem_map.mp (hall a ha)
    rw [← (hdone o ho ha).unique (hresults o.step ha)] at hsuccess
    exact ⟨o, ho, by rw [beq_self_eq_true, Bool.true_and]; exact hsuccess⟩

/-- What a turn brings is the fate of its step, if the outcomes before are the fates of theirs. -/
theorem Turn.Taken.fate {delay clock : Nat} {done : List Outcome} {t : Turn}
    (h : t.Taken delay clock done) (hstep : d.step? t.step.name = some t.step)
    (hhandler : handlers t.step.name = some t.handler) (hsteady : t.handler.IsSteady)
    (hdone : ∀ o ∈ done, o.step ∈ t.step.dependencies → d.Fate handlers o.step o.result)
    (hall : ∀ a ∈ t.step.dependencies, a ∈ done.map Outcome.step) :
    d.Fate handlers t.step.name t.outcome.result := by
  have hexists : ∀ a ∈ t.step.dependencies, ∃ r, d.Fate handlers a r := by
    intro a ha
    obtain ⟨o, ho, rfl⟩ := List.mem_map.mp (hall a ha)
    exact ⟨o.result, hdone o ho ha⟩
  choose! results hresults using hexists
  refine .intro hstep hresults ?_
  have hblocked := blockedBy?_eq_find? hdone hall hresults
  cases h with
  | skipped blocked =>
    rw [Step.verdict?, ← hblocked, blocked]
  | started free ran =>
    rw [Step.verdict?, ← hblocked, free, hhandler]
    obtain ⟨_, _, htrials, -, rfl, -⟩ := Step.trials_of_run ran
    exact htrials.result? hsteady _

/-- Jobs that can be taken one after the other when the steps of some names are done: each is declared
with its handler and comes after what it needs. -/
inductive Definition.Queue (d : Definition) (handlers : String → Option Handler) :
    (done : List String) → List (Step × Handler) → Prop where
  | nil {done : List String} : Queue d handlers done []
  | cons {done : List String} {s : Step} {handler : Handler} {jobs : List (Step × Handler)}
      (declared : d.step? s.name = some s) (found : handlers s.name = some handler)
      (supplied : ∀ a ∈ s.dependencies, a ∈ done)
      (rest : Queue d handlers (done ++ [s.name]) jobs) : Queue d handlers done ((s, handler) :: jobs)

theorem Definition.Queue.of_append {done : List String} {jobs more : List (Step × Handler)}
    (h : d.Queue handlers done (jobs ++ more)) : d.Queue handlers done jobs := by
  induction jobs generalizing done with
  | nil => exact .nil
  | cons job jobs ih =>
    cases h with
    | cons declared found supplied rest => exact .cons declared found supplied (ih rest)

theorem Definition.queue_of_assign {order : List Step} {jobs : List (Step × Handler)}
    (horder : d.executionOrder = .ok order) (hassign : assign handlers order = .ok jobs) :
    d.Queue handlers [] jobs := by
  obtain ⟨hvalid, hperm, hfirst⟩ := executionOrder_eq_ok horder
  have hnodup := ((isValid_iff d).mp hvalid).2.1
  obtain ⟨hsteps, hfound⟩ := assign_eq_ok hassign
  suffices h : ∀ placed, order = placed ++ jobs.map Prod.fst →
      d.Queue handlers (placed.map Step.name) jobs from h [] hsteps.symm
  clear hsteps hassign
  induction jobs with
  | nil => exact fun _ _ => .nil
  | cons job jobs ih =>
    intro placed hsplit
    have hjob : job.1 ∈ order := hsplit ▸ List.mem_append_right _ List.mem_cons_self
    refine .cons ((step?_eq_some_iff hnodup).mpr ⟨hperm.subset hjob, rfl⟩)
      (hfound job List.mem_cons_self) (hfirst placed job.1 _ hsplit) ?_
    have hnext := ih (fun j hj => hfound j (List.mem_cons_of_mem _ hj)) (placed ++ [job.1])
      (by rw [hsplit, List.map_cons, List.append_assoc, List.singleton_append])
    rwa [List.map_append] at hnext

/-- All outcomes of a run are fates, as far as handlers do not look at the time. -/
theorem fate_of_turns {delay clock start finish : Nat} {done : List Outcome} {turns : List Turn}
    (h : Turns delay clock done start turns finish)
    (hqueue : d.Queue handlers (done.map Outcome.step) (turns.map fun t => (t.step, t.handler)))
    (hdone : ∀ o ∈ done, d.IsSteady handlers o.step → d.Fate handlers o.step o.result) :
    ∀ o ∈ done ++ turns.map Turn.outcome,
      d.IsSteady handlers o.step → d.Fate handlers o.step o.result := by
  induction h with
  | nil => simpa using hdone
  | @cons done t turns finish taken rest ih =>
    cases hqueue with
    | cons declared found supplied hrest =>
      rw [List.map_cons, ← List.singleton_append, ← List.append_assoc]
      refine ih ?_ fun o ho hsteady => ?_
      · rw [List.map_append, List.map_singleton, taken.outcome_step]
        exact hrest
      · rcases List.mem_append.mp ho with ho | ho
        · exact hdone o ho hsteady
        · rw [List.mem_singleton.mp ho, taken.outcome_step] at hsteady ⊢
          refine taken.fate declared found (hsteady _ .refl _ found) (fun p hp hdep => ?_) supplied
          exact hdone p hp fun b hb => hsteady b (.head (Definition.requires_of_step? declared hdep) hb)

/-- If every step has a fate, a run of them ends. -/
theorem jobsEnd_of_fate {done : List Outcome} {jobs : List (Step × Handler)}
    (hqueue : d.Queue handlers (done.map Outcome.step) jobs)
    (hsteady : ∀ job ∈ jobs, job.2.IsSteady)
    (hfate : ∀ job ∈ jobs, ∃ r, d.Fate handlers job.1.name r)
    (hdone : ∀ o ∈ done, d.Fate handlers o.step o.result) (delay start : Nat) :
    JobsEnd delay jobs done start := by
  induction jobs generalizing done start with
  | nil => exact .nil
  | cons job jobs ih =>
    obtain ⟨s, handler⟩ := job
    cases hqueue with
    | cons declared found supplied rest =>
      obtain ⟨r, hr⟩ := hfate _ List.mem_cons_self
      obtain ⟨results, dependencies, verdict⟩ := hr.exists_results declared
      rw [Step.verdict?, ← blockedBy?_eq_find? (fun o ho _ => hdone o ho) supplied dependencies,
        found] at verdict
      -- Whichever outcome comes next, it is the fate of its step, and the rest goes on from it.
      have hnext : ∀ (o : Outcome) (time : Nat), o.step = s.name → o.result = r →
          JobsEnd delay jobs (done ++ [o]) time := by
        intro o time hname hresult
        refine ih ?_ (fun j hj => hsteady j (List.mem_cons_of_mem _ hj))
          (fun j hj => hfate j (List.mem_cons_of_mem _ hj)) (fun p hp => ?_) time
        · rw [List.map_append, List.map_singleton, hname]
          exact rest
        · rcases List.mem_append.mp hp with hp | hp
          · exact hdone p hp
          · rw [List.mem_singleton.mp hp, hname, hresult]
            exact hr
      cases hblocked : s.blockedBy? done with
      | some a =>
        rw [hblocked, Option.some.injEq] at verdict
        exact .of_blocked hblocked (hnext (.blocked s.name a) start rfl verdict)
      | none =>
        simp only [hblocked, Option.bind_some] at verdict
        have hjob : handler.IsSteady := hsteady _ List.mem_cons_self
        obtain ⟨before, last, htrials⟩ :=
          Step.exists_trials_of_result? hjob verdict delay start
        have hresult := htrials.result? hjob start
        rw [verdict, Option.some.injEq] at hresult
        exact .of_trials hblocked htrials
          (hnext _ last.finish (last.step_outcome s.name start) hresult.symm)

end Runs

/-- Outcomes that a run of a definition has recorded at some time: those of the steps that it has
got through by then. -/
def Definition.Records (d : Definition) (handlers : String → Option Handler) (delay start : Nat)
    (outcomes : List Outcome) : Prop :=
  ∃ order jobs count clock calls finish, d.executionOrder = .ok order ∧
    assign handlers order = .ok jobs ∧
    runJobs delay clock (jobs.take count) [] start = ⟨calls, .finished outcomes finish⟩

namespace Definition
variable {d d' : Definition} {handlers handlers' : String → Option Handler}
  {delay delay' start start' : Nat}

theorem Ran.records {calls : List Call} {report : Report}
    (h : d.Ran handlers delay start calls report) : d.Records handlers delay start report.steps := by
  obtain ⟨order, jobs, clock, finish, horder, hassign, hrun, -⟩ := h
  refine ⟨order, jobs, jobs.length, clock, calls, finish, horder, hassign, ?_⟩
  rw [List.take_length]
  exact hrun

theorem Records.nodup {outcomes : List Outcome} (h : d.Records handlers delay start outcomes) :
    d.names.Nodup := by
  obtain ⟨order, -, -, -, -, -, horder, -, -⟩ := h
  exact ((isValid_iff d).mp (executionOrder_eq_ok horder).1).2.1

theorem Records.fate {outcomes : List Outcome} (h : d.Records handlers delay start outcomes) :
    ∀ o ∈ outcomes, d.IsSteady handlers o.step → d.Fate handlers o.step o.result := by
  obtain ⟨order, jobs, count, clock, calls, finish, horder, hassign, hrun⟩ := h
  obtain ⟨turns, hturns, hjobs, houtcomes, -⟩ := turns_of_runJobs hrun
  rw [houtcomes]
  refine fate_of_turns hturns ?_ (by simp)
  have hqueue := queue_of_assign horder hassign
  rw [← List.take_append_drop count jobs] at hqueue
  rw [hjobs]
  exact hqueue.of_append

theorem Records.result_eq {outcomes outcomes' : List Outcome}
    (h : d.Records handlers delay start outcomes)
    (h' : d'.Records handlers' delay' start' outcomes') {o o' : Outcome} (ho : o ∈ outcomes)
    (ho' : o' ∈ outcomes') (hstep : o'.step = o.step)
    (hagrees : d.AgreesOn handlers d' handlers' o.step) : o'.result = o.result := by
  have hfate := hagrees.fate (h.fate o ho hagrees.steady)
  have hsteady := hagrees.steady_right h'.nodup
  rw [← hstep] at hfate hsteady
  exact (h'.fate o' ho' hsteady).unique hfate

/-! ## 4. The same steps in another order -/

section Rearranged
variable (hperm : d'.steps.Perm d.steps)
  (hsteady : ∀ s ∈ d.steps, ∀ handler, handlers s.name = some handler → handler.IsSteady)
include hperm

theorem step?_eq_of_perm (hnodup : d.names.Nodup) (a : String) : d'.step? a = d.step? a := by
  have hnodup' : d'.names.Nodup := (hperm.map Step.name).nodup_iff.mpr hnodup
  ext s
  rw [step?_eq_some_iff hnodup', step?_eq_some_iff hnodup, hperm.mem_iff]

include hsteady

theorem agreesOn_of_perm (hvalid : d.isValid = true) {a : String} (ha : a ∈ d.names) :
    d.AgreesOn handlers d' handlers a := by
  obtain ⟨-, hnodup, hdeclared, -⟩ := (isValid_iff d).mp hvalid
  have hnames : ∀ b, d.Reaches a b → b ∈ d.names := by
    intro b hb
    cases hb with
    | refl => exact ha
    | tail _ hrequires =>
      obtain ⟨s, hs, -, hb⟩ := hrequires
      exact (hdeclared s hs b hb).2
  refine ⟨fun b _ => step?_eq_of_perm hperm hnodup b, fun _ _ => rfl, fun b hb handler hfound => ?_⟩
  obtain ⟨s, hs, rfl⟩ := List.mem_map.mp (hnames b hb)
  exact hsteady s hs handler hfound

/-- All steps of a run have a fate, in the other order as well. -/
theorem Ran.fate_of_perm {calls : List Call} {report : Report}
    (h : d.Ran handlers delay start calls report) :
    ∀ o ∈ report.steps, d'.Fate handlers o.step o.result := by
  have hvalid : d.isValid = true := by
    obtain ⟨order, -, -, -, horder, -⟩ := h
    exact (executionOrder_eq_ok horder).1
  intro o ho
  have hname : o.step ∈ d.names := h.explained.perm.subset (List.mem_map_of_mem ho)
  have hagrees := agreesOn_of_perm hperm hsteady hvalid hname
  exact hagrees.fate (h.records.fate o ho hagrees.steady)

/-- If a run ends, so does a run of the same steps in another order. -/
theorem Ran.exists_of_perm {calls : List Call} {report : Report}
    (h : d.Ran handlers delay start calls report) (delay' start' : Nat) :
    ∃ calls' report', d'.Ran handlers delay' start' calls' report' := by
  have hfates := h.fate_of_perm hperm hsteady
  have hreported := h.explained.perm
  obtain ⟨order, jobs, -, -, horder, hassign, -⟩ := h
  obtain ⟨hvalid, horderperm, hfirst⟩ := executionOrder_eq_ok horder
  obtain ⟨hne, hnodup, -, -⟩ := (isValid_iff d).mp hvalid
  have hvalid' : d'.isValid = true := by
    refine isValid_of_order (fun hnil => hne ?_) ?_ (horderperm.trans hperm.symm) hfirst
    · rw [hnil] at hperm
      exact hperm.symm.eq_nil
    · exact (hperm.map Step.name).nodup_iff.mpr hnodup
  obtain ⟨order', hplace', horder'⟩ := executionOrder_of_isValid hvalid'
  have hdeclared : ∀ s ∈ order', s ∈ d.steps := fun s hs =>
    hperm.subset ((perm_of_place hplace').1.subset hs)
  obtain ⟨jobs', hassign'⟩ : ∃ jobs', assign handlers order' = .ok jobs' := by
    refine exists_assign fun s hs => ?_
    have hmem := horderperm.symm.subset (hdeclared s hs)
    rw [← (assign_eq_ok hassign).1] at hmem
    obtain ⟨job, hjob, rfl⟩ := List.mem_map.mp hmem
    rw [(assign_eq_ok hassign).2 job hjob]
    rfl
  have hjobs' : ∀ job ∈ jobs', job.1 ∈ d.steps ∧ handlers job.1.name = some job.2 := by
    obtain ⟨hsteps', hfound'⟩ := assign_eq_ok hassign'
    exact fun job hjob =>
      ⟨hdeclared _ (hsteps' ▸ List.mem_map_of_mem hjob), hfound' job hjob⟩
  have hqueue : d'.Queue handlers (([] : List Outcome).map Outcome.step) jobs' :=
    queue_of_assign horder' hassign'
  obtain ⟨calls', outcomes, finish, -, hrun⟩ := jobsEnd_of_fate hqueue
    (fun job hjob => hsteady job.1 (hjobs' job hjob).1 job.2 (hjobs' job hjob).2)
    (fun job hjob => by
      obtain ⟨o, ho, hstep⟩ := List.mem_map.mp
        (hreported.symm.subset (List.mem_map_of_mem (hjobs' job hjob).1))
      exact ⟨o.result, hstep ▸ hfates o ho⟩)
    (by simp) delay' start'
  exact ⟨calls', ⟨d'.id, outcomes⟩, order', jobs', finish, finish, horder', hassign',
    hrun finish (Nat.le_refl _), rfl⟩

/-- The two reports say the same of each step, each in its own order. -/
theorem Ran.results_perm {calls calls' : List Call} {report report' : Report}
    (h : d.Ran handlers delay start calls report)
    (h' : d'.Ran handlers delay' start' calls' report') :
    (report'.steps.map fun o => (o.step, o.result)).Perm
      (report.steps.map fun o => (o.step, o.result)) := by
  have hnames : (report'.steps.map Outcome.step).Perm (report.steps.map Outcome.step) :=
    (h'.explained.perm.trans (hperm.map Step.name)).trans h.explained.perm.symm
  have hsteady' : ∀ s ∈ d'.steps, ∀ handler, handlers s.name = some handler → handler.IsSteady :=
    fun s hs => hsteady s (hperm.subset hs)
  have hfates := h.fate_of_perm hperm hsteady
  have hfates' := h'.fate_of_perm (List.Perm.refl _) hsteady'
  have hexists : ∀ a ∈ report.steps.map Outcome.step, ∃ r, d'.Fate handlers a r := by
    intro a ha
    obtain ⟨o, ho, rfl⟩ := List.mem_map.mp ha
    exact ⟨o.result, hfates o ho⟩
  choose! fate hfate using hexists
  have hleft : ∀ o ∈ report.steps, (o.step, o.result) = (o.step, fate o.step) := fun o ho =>
    congrArg _ ((hfates o ho).unique (hfate o.step (List.mem_map_of_mem ho)))
  have hright : ∀ o ∈ report'.steps, (o.step, o.result) = (o.step, fate o.step) := fun o ho =>
    congrArg _ ((hfates' o ho).unique
      (hfate o.step (hnames.subset (List.mem_map_of_mem ho))))
  rw [List.map_congr_left hleft, List.map_congr_left hright]
  have hmapped := hnames.map fun a => (a, fate a)
  rwa [List.map_map, List.map_map] at hmapped

end Rearranged

end Definition

/-! ## 5. Runs in a runner -/

/-- Work without a gate takes as long at any time. -/
theorem Worker.handler_of_ungated {worker : Worker} (h : ∀ number, (worker number).gate = none)
    (step : String) (passages : List Passage) :
    worker.handler step passages =
      fun _ number => ⟨(worker number).length, (worker number).answer⟩ := by
  funext start number
  simp only [Worker.handler, h number]

namespace Plan

/-- Two plans have the same step under a name, with the same work, and so with all that the step
needs. None of this work waits at a gate. -/
structure AgreesOn (p p' : Plan) (a : String) : Prop where
  step? : ∀ b, p.definition.Reaches a b → p'.definition.step? b = p.definition.step? b
  worker : ∀ b, p.definition.Reaches a b → p'.workers.lookup b = p.workers.lookup b
  ungated : ∀ b, p.definition.Reaches a b → ∀ worker, p.workers.lookup b = some worker →
    ∀ number, (worker number).gate = none

theorem AgreesOn.definition {p p' : Plan} {a : String} (h : p.AgreesOn p' a)
    (passages passages' : List Passage) :
    p.definition.AgreesOn (p.handlers passages) p'.definition (p'.handlers passages') a := by
  have hhandler : ∀ b, p.definition.Reaches a b → ∀ worker, p.workers.lookup b = some worker →
      ∀ passages, worker.handler b passages =
        fun _ number => ⟨(worker number).length, (worker number).answer⟩ := fun b hb worker hw =>
    Worker.handler_of_ungated (h.ungated b hb worker hw) b
  refine ⟨h.step?, fun b hb => ?_, fun b hb handler hfound => ?_⟩
  · rw [handlers, handlers, h.worker b hb]
    refine Option.map_congr fun worker hworker => ?_
    rw [hhandler b hb worker hworker, hhandler b hb worker hworker]
  · obtain ⟨worker, hworker, rfl⟩ := Option.map_eq_some_iff.mp hfound
    rw [hhandler b hb worker hworker]
    exact fun _ _ _ => rfl

end Plan

/-- A run that has finished was a run of the plan that was accepted for its ticket. -/
theorem Runner.History.exists_ran {delay : Nat} {events : List Event} {r : Runner} {p : Plan}
    {ticket : Nat} {calls : List Call} {report : Report} (h : Runner.History delay events r)
    (haccepted : .accepted ticket p ∈ events) (hfinished : .finished ticket calls report ∈ events) :
    ∃ passages start, p.definition.Ran (p.handlers passages) delay start calls report := by
  obtain ⟨q, passages, start, hq, hran⟩ :=
    (Runner.Traced.of_history h).finished ticket calls report hfinished
  cases opening_unique h haccepted hq rfl rfl rfl
  exact ⟨passages, start, hran⟩

/-- What becomes of a step follows from its definition and its handler and from those of all that it
needs, for any two runs whose handlers do not look at the time, wherever they have come to. If the
same steps are declared in another order, a run ends as well and says the same of each. This holds
of the runs of a runner, whatever else goes on in it. -/
theorem result_follows_from_needs :
    (∀ (d d' : Definition) (handlers handlers' : String → Option Handler)
      (delay delay' start start' : Nat) (outcomes outcomes' : List Outcome),
      d.Records handlers delay start outcomes → d'.Records handlers' delay' start' outcomes' →
      ∀ o ∈ outcomes, ∀ o' ∈ outcomes', o'.step = o.step →
        d.AgreesOn handlers d' handlers' o.step → o'.result = o.result) ∧
    (∀ (d d' : Definition) (handlers : String → Option Handler) (delay delay' start start' : Nat)
      (calls : List Call) (report : Report), d'.steps.Perm d.steps →
      (∀ s ∈ d.steps, ∀ handler, handlers s.name = some handler → handler.IsSteady) →
      d.Ran handlers delay start calls report →
      (∃ calls' report', d'.Ran handlers delay' start' calls' report') ∧
        ∀ calls' report', d'.Ran handlers delay' start' calls' report' →
          (report'.steps.map fun o => (o.step, o.result)).Perm
            (report.steps.map fun o => (o.step, o.result))) ∧
    ∀ (delay delay' : Nat) (events events' : List Event) (r r' : Runner) (p p' : Plan)
      (ticket ticket' : Nat) (calls calls' : List Call) (report report' : Report),
      Runner.History delay events r → Runner.History delay' events' r' →
      .accepted ticket p ∈ events → .finished ticket calls report ∈ events →
      .accepted ticket' p' ∈ events' → .finished ticket' calls' report' ∈ events' →
      ∀ o ∈ report.steps, ∀ o' ∈ report'.steps, o'.step = o.step →
        p.AgreesOn p' o.step → o'.result = o.result := by
  refine ⟨?_, ?_, ?_⟩
  · intro d d' handlers handlers' delay delay' start start' outcomes outcomes' h h' o ho o' ho'
      hstep hagrees
    exact h.result_eq h' ho ho' hstep hagrees
  · intro d d' handlers delay delay' start start' calls report hperm hsteady h
    exact ⟨h.exists_of_perm hperm hsteady delay' start',
      fun calls' report' h' => h.results_perm hperm hsteady h'⟩
  · intro delay delay' events events' r r' p p' ticket ticket' calls calls' report report' h h'
      haccepted hfinished haccepted' hfinished' o ho o' ho' hstep hagrees
    obtain ⟨passages, start, hran⟩ := h.exists_ran haccepted hfinished
    obtain ⟨passages', start', hran'⟩ := h'.exists_ran haccepted' hfinished'
    exact hran.records.result_eq hran'.records ho ho' hstep (hagrees.definition passages passages')

/-- A step that succeeds at its second attempt, one that needs it, and one that does not. -/
def retriedPlan : Plan :=
  ⟨{ id := "sync", steps := [{ name := "clean" }, { name := "load", dependencies := ["fetch"] },
      { name := "fetch", retries := 1 }] },
    [("clean", fun _ => { length := some 5, answer := .ok .null }),
      ("load", fun number => { length := some 2, answer := .ok (.ofNat number) }),
      ("fetch", fun number =>
        { answer := if number = 1 then .error (.database "gone") else .ok .null })]⟩

/-- The same steps in another order; what the independent step does is different. -/
def rearrangedPlan : Plan :=
  ⟨{ retriedPlan.definition with steps := retriedPlan.definition.steps.reverse },
    ("clean", fun _ => { answer := .error (.database "full") }) :: retriedPlan.workers.drop 1⟩

def retriedReport : Report :=
  ⟨"sync", [.succeeded "clean" 1 .null 0 5, .succeeded "fetch" 2 .null 5 8,
    .succeeded "load" 1 (.ofNat 1) 8 10]⟩

def rearrangedReport : Report :=
  ⟨"sync", [.succeeded "fetch" 2 .null 0 3, .succeeded "load" 1 (.ofNat 1) 3 5,
    .failed "clean" 1 (.database "full") 5 5]⟩

theorem agreesOn_rearranged : retriedPlan.AgreesOn rearrangedPlan "load" := by
  have hreaches : ∀ b, retriedPlan.definition.Reaches "load" b → b = "load" ∨ b = "fetch" := by
    intro b hb
    cases hb with
    | refl => exact Or.inl rfl
    | tail _ hrequires =>
      obtain ⟨s, hs, -, hb⟩ := hrequires
      have hfetch : ∀ s ∈ retriedPlan.definition.steps, s.dependencies ⊆ ["fetch"] := by decide
      exact Or.inr (List.mem_singleton.mp (hfetch s hs hb))
  refine ⟨fun b hb => ?_, fun b hb => ?_, fun b hb worker hworker => ?_⟩
  · rcases hreaches b hb with rfl | rfl <;> rfl
  · rcases hreaches b hb with rfl | rfl <;> rfl
  · rcases hreaches b hb with rfl | rfl <;> cases hworker <;> exact fun _ => rfl

def retriedCalls : List Call :=
  [⟨"clean", 1, 0⟩, ⟨"fetch", 1, 5⟩, ⟨"fetch", 2, 8⟩, ⟨"load", 1, 8⟩]

def rearrangedCalls : List Call :=
  [⟨"fetch", 1, 0⟩, ⟨"fetch", 2, 3⟩, ⟨"load", 1, 3⟩, ⟨"clean", 1, 5⟩]

theorem ran_retried :
    retriedPlan.definition.Ran (retriedPlan.handlers []) 3 0 retriedCalls retriedReport :=
  ⟨_, _, 10, 10, rfl, rfl, rfl, rfl⟩

theorem ran_rearranged :
    rearrangedPlan.definition.Ran (rearrangedPlan.handlers []) 3 0 rearrangedCalls
      rearrangedReport :=
  ⟨_, _, 5, 5, rfl, rfl, rfl, rfl⟩

/-- A runner that has done nothing but run a plan to its end. -/
theorem exists_history {p : Plan} {jobs : List (Step × Worker)} {delay finish : Nat}
    {calls : List Call} {outcomes : List Outcome}
    (henter : ({ delay } : Runner).enter p = .ok jobs)
    (h : LiveRun.progress delay finish ⟨0, p.definition.id, jobs, 0, [], []⟩ =
      ⟨calls, .finished outcomes finish⟩) :
    ∃ r, Runner.History delay [.accepted 0 p, .finished 0 calls ⟨p.definition.id, outcomes⟩] r :=
  ⟨_, ((Runner.Changes.single (.accept henter)).tail (.aside finish [] [] [])).tail
    (@Runner.Change.finish _ ⟨0, p.definition.id, jobs, 0, [], []⟩ calls outcomes finish
      (List.mem_singleton_self _) h)⟩

theorem result_follows_from_needs_rearranged :
    retriedPlan.definition.Ran (retriedPlan.handlers []) 3 0 retriedCalls retriedReport ∧
      rearrangedPlan.definition.Ran (rearrangedPlan.handlers []) 3 0 rearrangedCalls
        rearrangedReport ∧
      (Outcome.succeeded "fetch" 2 .null 0 3).result =
        (Outcome.succeeded "fetch" 2 .null 5 8).result ∧
      (∃ calls report, rearrangedPlan.definition.Ran (retriedPlan.handlers []) 3 0 calls report ∧
        (report.steps.map fun o => (o.step, o.result)).Perm
          (retriedReport.steps.map fun o => (o.step, o.result))) ∧
      ∃ r r', Runner.History 3 [.accepted 0 retriedPlan, .finished 0 retriedCalls retriedReport] r ∧
        Runner.History 3 [.accepted 0 rearrangedPlan, .finished 0 rearrangedCalls rearrangedReport]
          r' ∧
        retriedPlan.AgreesOn rearrangedPlan "load" ∧
        (Outcome.succeeded "load" 1 (.ofNat 1) 3 5).result =
          (Outcome.succeeded "load" 1 (.ofNat 1) 8 10).result := by
  refine ⟨ran_retried, ran_rearranged, ?_, ?_, ?_⟩
  · have hrequires : retriedPlan.definition.Requires "load" "fetch" :=
      ⟨{ name := "load", dependencies := ["fetch"] }, by decide, rfl, by decide⟩
    exact result_follows_from_needs.1 _ _ _ _ _ _ _ _ _ _ ran_retried.records
      ran_rearranged.records (.succeeded "fetch" 2 .null 5 8) (by decide) _ (by decide) rfl
      ((agreesOn_rearranged.definition [] []).of_requires hrequires)
  · have hsteady : ∀ s ∈ retriedPlan.definition.steps, ∀ handler,
        retriedPlan.handlers [] s.name = some handler → handler.IsSteady := by
      intro s hs handler hfound
      have hname : s.name ∈ ["clean", "load", "fetch"] := List.mem_map_of_mem hs
      simp only [List.mem_cons, List.not_mem_nil, or_false] at hname
      rcases hname with hname | hname | hname <;> rw [hname] at hfound <;> cases hfound <;>
        exact fun _ _ _ => rfl
    obtain ⟨⟨calls, report, hran⟩, hsame⟩ := result_follows_from_needs.2.1 _
      rearrangedPlan.definition _ 3 3 0 0 _ _ (List.reverse_perm _) hsteady ran_retried
    exact ⟨calls, report, hran, hsame calls report hran⟩
  · obtain ⟨r, hr⟩ : ∃ r, Runner.History 3
        [.accepted 0 retriedPlan, .finished 0 retriedCalls retriedReport] r :=
      exists_history rfl (rfl : LiveRun.progress 3 10 _ = _)
    obtain ⟨r', hr'⟩ : ∃ r, Runner.History 3
        [.accepted 0 rearrangedPlan, .finished 0 rearrangedCalls rearrangedReport] r :=
      exists_history rfl (rfl : LiveRun.progress 3 5 _ = _)
    exact ⟨r, r', hr, hr', agreesOn_rearranged,
      result_follows_from_needs.2.2 3 3 _ _ r r' _ _ 0 0 retriedCalls rearrangedCalls retriedReport
        rearrangedReport hr hr' (by simp) (by simp) (by simp) (by simp)
        (.succeeded "load" 1 (.ofNat 1) 8 10) (by decide) _ (by decide) rfl agreesOn_rearranged⟩

end MediaCatalog.Workflow
