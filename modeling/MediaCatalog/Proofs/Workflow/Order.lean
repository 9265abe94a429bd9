import Mathlib.Data.List.TFAE
import Mathlib.Tactic.TFAE
import MediaCatalog.Proofs.Workflow.Search
import MediaCatalog.Workflow.Order

/-!
# Order of execution — a workflow is valid exactly when its steps can be ordered

Two algorithms decide on the same condition: the checks, whose search looks for cycles, and the
placement of ready steps one by one. The condition itself speaks of neither: some arrangement of
the steps lists what a step needs before it (`DependenciesFirst`).
-/

namespace MediaCatalog.Workflow

/-- What each step needs is the name of a strictly earlier one. -/
def DependenciesFirst (order : List Step) : Prop :=
  ∀ before s after, order = before ++ s :: after →
    ∀ dependency ∈ s.dependencies, dependency ∈ before.map Step.name

namespace DependenciesFirst

theorem nil : DependenciesFirst [] := by
  intro before s after h
  simp at h

theorem concat {order : List Step} {s : Step} (h : DependenciesFirst order)
    (hs : ∀ dependency ∈ s.dependencies, dependency ∈ order.map Step.name) :
    DependenciesFirst (order ++ [s]) := by
  intro before t after hsplit dependency hd
  rcases List.eq_nil_or_concat after with hnil | ⟨front, last, hafter⟩
  · rw [hnil] at hsplit
    have hparts := List.append_inj' hsplit rfl
    rw [← hparts.1]
    rw [List.singleton_inj.mp hparts.2] at hs
    exact hs dependency hd
  · rw [hafter, List.concat_eq_append, ← List.cons_append, ← List.append_assoc] at hsplit
    exact h before t front (List.append_inj' hsplit rfl).1 dependency hd

/-- In an order without a name twice, what a step needs stands at a smaller position. -/
theorem idxOf_lt {order : List Step} (h : DependenciesFirst order)
    (hnodup : (order.map Step.name).Nodup) {s : Step} (hs : s ∈ order) {dependency : String}
    (hd : dependency ∈ s.dependencies) :
    (order.map Step.name).idxOf dependency < (order.map Step.name).idxOf s.name := by
  obtain ⟨before, after, rfl⟩ := List.append_of_mem hs
  have hbefore := h before s after rfl dependency hd
  rw [List.map_append, List.map_cons, List.nodup_append] at hnodup
  have hself : s.name ∉ before.map Step.name := fun hmem =>
    hnodup.2.2 s.name hmem s.name List.mem_cons_self rfl
  rw [List.map_append, List.map_cons, List.idxOf_append_of_mem hbefore,
    List.idxOf_append_of_notMem hself, List.idxOf_cons_self, Nat.add_zero]
  exact List.idxOf_lt_length_of_mem hbefore

end DependenciesFirst

namespace Finding

/-- The words that a message can begin with. -/
def fronts : List String :=
  ["Workflow '", "Duplicate step name: '", "Step '", "Dependency cycle detected: "]

theorem exists_front_of_message (f : Finding) :
    ∃ front ∈ fronts, ∃ rest, f.message = front ++ rest := by
  cases f with
  | noSteps workflow => exact ⟨"Workflow '", by decide, _, String.append_assoc⟩
  | zeroMaxActiveRuns workflow => exact ⟨"Workflow '", by decide, _, String.append_assoc⟩
  | duplicateName step =>
    exact ⟨"Duplicate step name: '", by decide, _, String.append_assoc⟩
  | selfDependency step => exact ⟨"Step '", by decide, _, String.append_assoc⟩
  | missingDependency step dependency =>
    refine ⟨"Step '", by decide,
      step ++ ("' depends on '" ++ (dependency ++ "' which does not exist")), ?_⟩
    show "Step '" ++ step ++ "' depends on '" ++ dependency ++ "' which does not exist" = _
    simp only [String.append_assoc]
  | cycle path => exact ⟨"Dependency cycle detected: ", by decide, _, rfl⟩

/-- No finding is worded like the refusal for want of a ready step. -/
theorem message_ne_noneReady (f : Finding) : f.message ≠ "no step is ready to run" := by
  obtain ⟨front, hfront, rest, hmessage⟩ := exists_front_of_message f
  have hletter : ∀ front ∈ fronts, front ≠ "" ∧ front.toList.head? ≠ some 'n' := by decide
  -- All messages begin with a capital letter, that refusal does not.
  obtain ⟨hne, hhead⟩ := hletter front hfront
  rw [hmessage]
  intro heq
  have hlist := congrArg (fun text => text.toList.head?) heq
  rw [String.toList_append, List.head?_append_of_ne_nil _ (mt String.toList_eq_nil_iff.mp hne)]
    at hlist
  exact hhead hlist

end Finding

namespace Definition

/-! ## 1. What the checks find -/

theorem isError_of_mem_duplicates {seen names : List String} {f : Finding}
    (h : f ∈ duplicates seen names) : f.isError = true := by
  induction names generalizing seen with
  | nil => simp [duplicates] at h
  | cons name names ih =>
    rw [duplicates] at h
    split at h
    · rcases List.mem_cons.mp h with rfl | h
      · rfl
      · exact ih h
    · exact ih h

theorem duplicates_eq_nil_iff {seen names : List String} :
    duplicates seen names = [] ↔ names.Nodup ∧ ∀ name ∈ names, name ∉ seen := by
  induction names generalizing seen with
  | nil => simp [duplicates]
  | cons name names ih =>
    rw [duplicates]
    split
    next hseen =>
      rw [List.contains_iff_mem] at hseen
      refine iff_of_false (List.cons_ne_nil _ _) fun h => ?_
      exact h.2 name List.mem_cons_self hseen
    next hnew =>
      rw [List.contains_iff_mem] at hnew
      rw [ih, List.nodup_cons]
      constructor
      · rintro ⟨hnodup, hapart⟩
        refine ⟨⟨fun hmem => hapart name hmem List.mem_cons_self, hnodup⟩, fun a ha => ?_⟩
        rcases List.mem_cons.mp ha with rfl | ha
        · exact hnew
        · exact fun hs => hapart a ha (List.mem_cons_of_mem _ hs)
      · rintro ⟨⟨hname, hnodup⟩, hapart⟩
        refine ⟨hnodup, fun a ha hs => ?_⟩
        rcases List.mem_cons.mp hs with rfl | hs
        · exact hname ha
        · exact hapart a (List.mem_cons_of_mem _ ha) hs

theorem mem_dependencyFindings {names : List String} {s : Step} {f : Finding} :
    f ∈ dependencyFindings names s ↔ ∃ dependency ∈ s.dependencies,
      dependency = s.name ∧ f = .selfDependency s.name ∨
        dependency ≠ s.name ∧ dependency ∉ names ∧ f = .missingDependency s.name dependency := by
  rw [dependencyFindings, List.mem_filterMap]
  refine exists_congr fun dependency => and_congr_right fun _ => ?_
  split
  next heq => simp [heq, eq_comm]
  next hne =>
    split
    next hmem => simp_all
    next hmem => simp_all [eq_comm]

theorem dependencyFindings_eq_nil_iff {names : List String} {s : Step} :
    dependencyFindings names s = [] ↔
      ∀ dependency ∈ s.dependencies, dependency ≠ s.name ∧ dependency ∈ names := by
  rw [List.eq_nil_iff_forall_not_mem]
  constructor
  · intro h dependency hd
    have hne : dependency ≠ s.name := fun heq =>
      h _ (mem_dependencyFindings.mpr ⟨dependency, hd, Or.inl ⟨heq, rfl⟩⟩)
    refine ⟨hne, Classical.byContradiction fun hmem => ?_⟩
    exact h _ (mem_dependencyFindings.mpr ⟨dependency, hd, Or.inr ⟨hne, hmem, rfl⟩⟩)
  · intro h f hf
    obtain ⟨dependency, hd, ⟨heq, -⟩ | ⟨-, hmem, -⟩⟩ := mem_dependencyFindings.mp hf
    · exact (h dependency hd).1 heq
    · exact hmem (h dependency hd).2

theorem isError_of_mem_dependencyFindings {names : List String} {s : Step} {f : Finding}
    (h : f ∈ dependencyFindings names s) : f.isError = true := by
  obtain ⟨dependency, -, ⟨-, rfl⟩ | ⟨-, -, rfl⟩⟩ := mem_dependencyFindings.mp h <;> rfl

/-- All checks are passed when there are steps, their names differ, what they need is declared and
no cycle is found; the limit on active runs does not count. -/
theorem isValid_iff (d : Definition) :
    d.isValid = true ↔ d.steps ≠ [] ∧ d.names.Nodup ∧
      (∀ s ∈ d.steps, ∀ dependency ∈ s.dependencies,
        dependency ≠ s.name ∧ dependency ∈ d.names) ∧ d.cycles = [] := by
  have hall : d.isValid = true ↔ ∀ f ∈ d.findings, f.isError = false := by
    simp [isValid]
  have hnodup : duplicates [] d.names = [] ↔ d.names.Nodup := by
    simp [duplicates_eq_nil_iff]
  have hdeps : d.steps.flatMap (dependencyFindings d.names) = [] ↔
      ∀ s ∈ d.steps, ∀ dependency ∈ s.dependencies,
        dependency ≠ s.name ∧ dependency ∈ d.names := by
    rw [List.flatMap_eq_nil_iff]
    exact forall₂_congr fun s _ => dependencyFindings_eq_nil_iff
  rw [hall, ← hnodup, ← hdeps, findings]
  constructor
  · intro h
    refine ⟨fun hnil => ?_, ?_, ?_, ?_⟩
    · have := h (.noSteps d.id) (by simp [hnil])
      cases this
    · rw [List.eq_nil_iff_forall_not_mem]
      intro f hf
      have := h f (by simp [hf])
      rw [isError_of_mem_duplicates hf] at this
      cases this
    · rw [List.eq_nil_iff_forall_not_mem]
      intro f hf
      have := h f (List.mem_append_left _ (List.mem_append_right _ hf))
      obtain ⟨s, -, hs⟩ := List.mem_flatMap.mp hf
      rw [isError_of_mem_dependencyFindings hs] at this
      cases this
    · rw [List.eq_nil_iff_forall_not_mem]
      intro c hc
      have := h (.cycle c) (List.mem_append_right _ (List.mem_map_of_mem hc))
      cases this
  · rintro ⟨hne, hdup, hdep, hcyc⟩ f hf
    rw [hdup, hdep, hcyc, if_neg (by simpa using hne)] at hf
    simp only [List.nil_append, List.append_nil, List.map_nil] at hf
    split at hf
    · rw [List.mem_singleton.mp hf]
      rfl
    · simp at hf

/-! ## 2. Edges of a definition whose names differ -/

theorem exists_step_of_mem_edges {d : Definition} {a b : String} (h : b ∈ d.edges a) :
    ∃ s ∈ d.steps, s.name = a ∧ b ∈ s.dependencies := by
  unfold edges at h
  split at h
  next s hfind =>
    refine ⟨s, List.mem_reverse.mp (List.mem_of_find?_eq_some hfind), ?_,
      (List.mem_filter.mp h).1⟩
    have hname := List.find?_some hfind
    exact beq_iff_eq.mp hname
  next => simp at h

theorem eq_of_name_eq {d : Definition} (hnodup : d.names.Nodup) {s t : Step} (hs : s ∈ d.steps)
    (ht : t ∈ d.steps) (h : s.name = t.name) : s = t :=
  List.inj_on_of_nodup_map hnodup hs ht h

theorem mem_edges_of_mem {d : Definition} (hnodup : d.names.Nodup) {s : Step} (hs : s ∈ d.steps)
    {b : String} (hb : b ∈ s.dependencies) (hne : b ≠ s.name) : b ∈ d.edges s.name := by
  have hsome : (d.steps.reverse.find? (·.name == s.name)).isSome := by
    rw [List.find?_isSome]
    exact ⟨s, List.mem_reverse.mpr hs, beq_self_eq_true _⟩
  obtain ⟨t, ht⟩ := Option.isSome_iff_exists.mp hsome
  have hts : t = s := by
    have hname := List.find?_some ht
    exact eq_of_name_eq hnodup (List.mem_reverse.mp (List.mem_of_find?_eq_some ht)) hs
      (beq_iff_eq.mp hname)
  unfold edges
  rw [ht, hts]
  exact List.mem_filter.mpr ⟨hb, by simpa using hne⟩

/-- If the steps can be ordered, no cycle is found: it would lead down in the order for ever. -/
theorem cycles_eq_nil_of_order {d : Definition} {order : List Step} (hnodup : d.names.Nodup)
    (hperm : order.Perm d.steps) (hfirst : DependenciesFirst order) : d.cycles = [] := by
  have hnodup' : (order.map Step.name).Nodup := (hperm.map Step.name).nodup_iff.mpr hnodup
  have hdown : ∀ a b, d.Edge a b →
      (order.map Step.name).idxOf b < (order.map Step.name).idxOf a := by
    intro a b hab
    obtain ⟨s, hs, rfl, hb⟩ := exists_step_of_mem_edges hab.1
    exact hfirst.idxOf_lt hnodup' (hperm.mem_iff.mpr hs) hb
  rw [List.eq_nil_iff_forall_not_mem]
  intro c hc
  have hcycle := isCycle_of_mem_cycles hc
  have hpairwise : c.Pairwise fun a b =>
      (order.map Step.name).idxOf b < (order.map Step.name).idxOf a := by
    have : IsTrans String fun a b =>
        (order.map Step.name).idxOf b < (order.map Step.name).idxOf a :=
      ⟨fun _ _ _ h h' => Nat.lt_trans h' h⟩
    exact (hcycle.chain.imp hdown).pairwise
  -- The first name of the cycle is also its last, so it would stand below itself.
  match c, hcycle, hpairwise with
  | [], hcycle, _ => exact absurd hcycle.length (by simp)
  | a :: rest, hcycle, hpairwise =>
    have hlast : rest.getLast? = some a := by
      have hclosed := hcycle.closed
      have hlen := hcycle.length
      cases rest with
      | nil => simp at hlen
      | cons b rest => rw [List.head?_cons, List.getLast?_cons_cons] at hclosed; exact hclosed.symm
    have hself := (List.pairwise_cons.mp hpairwise).1 a (List.mem_of_getLast? hlast)
    exact absurd hself (Nat.lt_irrefl _)

/-! ## 3. Placing ready steps -/

/-- What holds of the placed steps at any time. -/
structure Placed (d : Definition) (placed : List Step) : Prop where
  declared : placed ⊆ d.steps
  nodup : (placed.map Step.name).Nodup
  first : DependenciesFirst placed

theorem placed_nil (d : Definition) : d.Placed [] :=
  ⟨List.nil_subset _, List.nodup_nil, .nil⟩

theorem isReady_iff {placed : List Step} {s : Step} :
    isReady placed s = true ↔ s.name ∉ placed.map Step.name ∧
      ∀ dependency ∈ s.dependencies, dependency ∈ placed.map Step.name := by
  simp only [isReady, Bool.and_eq_true, Bool.not_eq_true', List.all_eq_true,
    List.contains_iff_mem, ← Bool.not_eq_true]

theorem Placed.concat {d : Definition} {placed : List Step} {s : Step} (h : d.Placed placed)
    (hs : s ∈ d.steps) (hready : isReady placed s = true) : d.Placed (placed ++ [s]) := by
  obtain ⟨hnew, hdeps⟩ := isReady_iff.mp hready
  refine ⟨?_, ?_, h.first.concat hdeps⟩
  · intro t ht
    rcases List.mem_append.mp ht with ht | ht
    · exact h.declared ht
    · rw [List.mem_singleton.mp ht]
      exact hs
  · rw [List.map_append, List.nodup_append]
    refine ⟨h.nodup, List.nodup_singleton _, ?_⟩
    intro a ha b hb hab
    rw [List.map_singleton, List.mem_singleton] at hb
    exact hnew (hb ▸ hab ▸ ha)

theorem Placed.place {d : Definition} {count : Nat} {placed order : List Step}
    (h : d.Placed placed) (hplace : d.place count placed = some order) :
    d.Placed order ∧ order.length = placed.length + count := by
  induction count generalizing placed with
  | zero =>
    rw [Definition.place, Option.some_inj] at hplace
    subst hplace
    exact ⟨h, rfl⟩
  | succ count ih =>
    rw [Definition.place] at hplace
    split at hplace
    next s hfind =>
      have hnext := h.concat (List.mem_of_find?_eq_some hfind) (List.find?_some hfind)
      obtain ⟨horder, hlen⟩ := ih hnext hplace
      refine ⟨horder, ?_⟩
      rw [hlen, List.length_append, List.length_singleton]
      omega
    next => cases hplace

/-- As many steps as there are, none of them twice, are all steps. -/
theorem Placed.perm {d : Definition} {order : List Step} (h : d.Placed order)
    (hlen : order.length = d.steps.length) : order.Perm d.steps := by
  have hsub := List.subperm_of_subset (List.Nodup.of_map _ h.nodup) h.declared
  exact hsub.perm_of_length_le (Nat.le_of_eq hlen.symm)

theorem perm_of_place {d : Definition} {order : List Step}
    (h : d.place d.steps.length [] = some order) :
    order.Perm d.steps ∧ DependenciesFirst order := by
  obtain ⟨hplaced, hlen⟩ := (placed_nil d).place h
  exact ⟨hplaced.perm (by simpa using hlen), hplaced.first⟩

/-! ## 4. Some step is always ready -/

theorem exists_unplaced {d : Definition} {placed : List Step} (hnodup : d.names.Nodup)
    (hlt : placed.length < d.steps.length) : ∃ a ∈ d.names, a ∉ placed.map Step.name := by
  refine Classical.byContradiction fun hno => ?_
  have hsub : d.names ⊆ placed.map Step.name := fun a ha =>
    Classical.byContradiction fun h => hno ⟨a, ha, h⟩
  have hlen := (List.subperm_of_subset hnodup hsub).length_le
  rw [names, List.length_map, List.length_map] at hlen
  omega

theorem exists_ready {d : Definition} {placed : List Step} (hvalid : d.isValid = true)
    (hlt : placed.length < d.steps.length) : ∃ s ∈ d.steps, isReady placed s = true := by
  obtain ⟨-, hnodup, hdeps, hcycles⟩ := (isValid_iff d).mp hvalid
  obtain ⟨order, hall, hsettled⟩ := cycles_settled d
  rw [hcycles] at hsettled
  -- Without cycles every edge leads down the list of the search, so its lowest name is ready.
  obtain ⟨a, ha, hnew, hedges⟩ := hsettled.exists_minimal (· ∈ placed.map Step.name) <| by
    obtain ⟨a, ha, hnew⟩ := exists_unplaced hnodup hlt
    exact ⟨a, hall ha, ha, hnew⟩
  obtain ⟨s, hs, rfl⟩ := List.mem_map.mp ha
  refine ⟨s, hs, isReady_iff.mpr ⟨hnew, fun dependency hd => ?_⟩⟩
  obtain ⟨hne, hdeclared⟩ := hdeps s hs dependency hd
  rcases hedges dependency ⟨mem_edges_of_mem hnodup hs hd hne, hdeclared⟩ with hplaced | ⟨c, hc, -⟩
  · exact hplaced
  · simp at hc

theorem place_isSome {d : Definition} (hvalid : d.isValid = true) (count : Nat)
    (placed : List Step) (hcount : placed.length + count = d.steps.length) :
    (d.place count placed).isSome := by
  induction count generalizing placed with
  | zero => rfl
  | succ count ih =>
    rw [place]
    split
    next s hfind => exact ih _ (by rw [List.length_append, List.length_singleton]; omega)
    next hnone =>
      have hlt : placed.length < d.steps.length := by omega
      obtain ⟨s, hs, hready⟩ := exists_ready hvalid hlt
      exact absurd hready (List.find?_eq_none.mp hnone s hs)

/-! ## 5. The order of execution -/

theorem executionOrder_of_isValid {d : Definition} (hvalid : d.isValid = true) :
    ∃ order, d.place d.steps.length [] = some order ∧ d.executionOrder = .ok order := by
  obtain ⟨order, horder⟩ := Option.isSome_iff_exists.mp
    (place_isSome hvalid d.steps.length [] (by simp))
  refine ⟨order, horder, ?_⟩
  rw [executionOrder, if_pos hvalid, horder]

theorem executionOrder_of_not_isValid {d : Definition} (h : d.isValid = false) :
    d.executionOrder = .error (.invalidWorkflow d.id d.errorMessages) := by
  rw [executionOrder, if_neg (by simp [h])]

theorem executionOrder_eq_ok {d : Definition} {order : List Step}
    (h : d.executionOrder = .ok order) :
    d.isValid = true ∧ order.Perm d.steps ∧ DependenciesFirst order := by
  cases hvalid : d.isValid with
  | false => rw [executionOrder_of_not_isValid hvalid] at h; cases h
  | true =>
    obtain ⟨placed, hplace, hok⟩ := executionOrder_of_isValid hvalid
    rw [hok, Except.ok.injEq] at h
    subst h
    exact ⟨rfl, perm_of_place hplace⟩

theorem isValid_of_order {d : Definition} {order : List Step} (hne : d.steps ≠ [])
    (hnodup : d.names.Nodup) (hperm : order.Perm d.steps) (hfirst : DependenciesFirst order) :
    d.isValid = true := by
  have hnodup' : (order.map Step.name).Nodup := (hperm.map Step.name).nodup_iff.mpr hnodup
  refine (isValid_iff d).mpr
    ⟨hne, hnodup, fun s hs dependency hd => ?_, cycles_eq_nil_of_order hnodup hperm hfirst⟩
  have hs' : s ∈ order := hperm.mem_iff.mpr hs
  refine ⟨fun heq => ?_, ?_⟩
  · have hlt := hfirst.idxOf_lt hnodup' hs' hd
    rw [heq] at hlt
    exact absurd hlt (Nat.lt_irrefl _)
  · obtain ⟨before, after, hsplit⟩ := List.append_of_mem hs'
    have hbefore := hfirst before s after hsplit dependency hd
    apply (hperm.map Step.name).subset
    rw [hsplit, List.map_append]
    exact List.mem_append_left _ hbefore

/-- The checks pass, the steps can be placed and the steps can be ordered: all three are the same.
A refusal has the messages of the errors found, never that no step is ready. -/
theorem isValid_tfae_executionOrder (d : Definition) :
    [d.isValid = true,
      ∃ order, d.executionOrder = .ok order,
      d.steps ≠ [] ∧ d.names.Nodup ∧
        ∃ order : List Step, order.Perm d.steps ∧ DependenciesFirst order].TFAE ∧
    (d.isValid = true → d.place d.steps.length [] ≠ none) ∧
    ∀ failure, d.executionOrder = .error failure →
      failure = .invalidWorkflow d.id
        ((d.findings.filter fun f => f.severity = .error).map Finding.message) ∧
      failure ≠ .invalidWorkflow d.id ["no step is ready to run"] := by
  refine ⟨?_, ?_, ?_⟩
  · tfae_have 1 → 2 := fun hvalid => (executionOrder_of_isValid hvalid).imp fun _ h => h.2
    tfae_have 2 → 3 := by
      rintro ⟨order, horder⟩
      obtain ⟨hvalid, hperm, hfirst⟩ := executionOrder_eq_ok horder
      obtain ⟨hne, hnodup, -, -⟩ := (isValid_iff d).mp hvalid
      exact ⟨hne, hnodup, order, hperm, hfirst⟩
    tfae_have 3 → 1 := fun ⟨hne, hnodup, _, hperm, hfirst⟩ =>
      isValid_of_order hne hnodup hperm hfirst
    tfae_finish
  · intro hvalid hnone
    obtain ⟨order, hplace, -⟩ := executionOrder_of_isValid hvalid
    rw [hplace] at hnone
    cases hnone
  · intro failure hfailure
    have hvalid : d.isValid = false := by
      cases hvalid : d.isValid with
      | false => rfl
      | true =>
        obtain ⟨order, -, hok⟩ := executionOrder_of_isValid hvalid
        rw [hok] at hfailure
        cases hfailure
    rw [executionOrder_of_not_isValid hvalid, Except.error.injEq] at hfailure
    subst hfailure
    refine ⟨?_, fun heq => ?_⟩
    · rw [errorMessages]
      congr 2
    · injection heq with _ hmessages
      obtain ⟨f, -, hf⟩ := List.mem_map.mp
        (hmessages ▸ List.mem_singleton_self _ : "no step is ready to run" ∈ d.errorMessages)
      exact f.message_ne_noneReady hf

end Definition

end MediaCatalog.Workflow
