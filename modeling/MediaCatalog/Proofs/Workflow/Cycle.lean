import Mathlib.Logic.Relation
import MediaCatalog.Proofs.Workflow.Order

/-!
# Cycles — which cycles the checks report, and that none escapes them

Whether a workflow has cycles is a question about the steps as they are declared (`Needs`). The
path in a finding is a cycle of that graph without repetition, and the last edges of all those paths
are enough: no closed walk avoids all of them (`not_transGen_open`).
-/

namespace MediaCatalog.Workflow

/-! ## 1. Walks that end where they begin -/

/-- A walk along at least one edge, back to where it began. -/
structure IsClosedWalk (r : String → String → Prop) (walk : List String) : Prop where
  chain : walk.IsChain r
  closed : walk.head? = walk.getLast?
  length : 2 ≤ walk.length

namespace IsClosedWalk
variable {r : String → String → Prop} {walk : List String}

theorem exists_eq_cons (h : IsClosedWalk r walk) :
    ∃ a b rest, walk = a :: b :: rest ∧ (b :: rest).getLast? = some a := by
  match walk, h with
  | [], h | [_], h => exact absurd h.length (by simp)
  | a :: b :: rest, h =>
    refine ⟨a, b, rest, rfl, ?_⟩
    rw [← List.getLast?_cons_cons, ← h.closed, List.head?_cons]

/-- From every name on a closed walk the walk leads back to it. -/
theorem transGen_self (h : IsClosedWalk r walk) {a : String} (ha : a ∈ walk) :
    Relation.TransGen r a a := by
  obtain ⟨x, y, rest, rfl, hlast⟩ := h.exists_eq_cons
  -- The start leads to every name, going forward, and every name to the start, going back from
  -- the end. Only the first edge makes sure that the way is not empty.
  have hfrom : ∀ b ∈ x :: y :: rest, Relation.ReflTransGen r x b :=
    h.chain.induction _ _ (fun _ _ hstep hb => hb.tail hstep) fun _ => .refl
  have hto : ∀ b ∈ x :: y :: rest, Relation.ReflTransGen r b x := by
    refine h.chain.backwards_induction _ _ (fun _ _ hstep hb => hb.head hstep) fun hne => ?_
    have hend : (x :: y :: rest).getLast hne = x := by
      rw [← Option.some_inj, ← List.getLast?_eq_some_getLast, List.getLast?_cons_cons, hlast]
    rw [hend]
  have hround : Relation.TransGen r x x :=
    .head' (List.isChain_cons_cons.mp h.chain).1 (hto y (by simp))
  exact (Relation.TransGen.trans_right (hto a ha) hround).trans_left (hfrom a ha)

end IsClosedWalk

namespace Definition

/-! ## 2. The graph of a definition -/

/-- The step is declared with a name, and none after it is. -/
def IsLastNamed (d : Definition) (name : String) (s : Step) : Prop :=
  ∃ before after, d.steps = before ++ s :: after ∧ s.name = name ∧ ∀ t ∈ after, t.name ≠ name

/-- The last step of the first name lists the second, another declared name. -/
def Needs (d : Definition) (a b : String) : Prop :=
  ∃ s, d.IsLastNamed a s ∧ b ∈ s.dependencies ∧ b ≠ a ∧ b ∈ d.names

theorem find?_reverse_eq_some_iff {d : Definition} {name : String} {s : Step} :
    d.steps.reverse.find? (·.name == name) = some s ↔ d.IsLastNamed name s := by
  rw [List.find?_eq_some_iff_append, IsLastNamed]
  simp only [beq_iff_eq, Bool.not_eq_true', beq_eq_false_iff_ne]
  constructor
  · rintro ⟨hname, after, before, hsplit, hafter⟩
    refine ⟨before.reverse, after.reverse, ?_, hname, by simpa using hafter⟩
    rw [← List.reverse_reverse d.steps, hsplit]
    simp
  · rintro ⟨before, after, hsplit, hname, hafter⟩
    refine ⟨hname, after.reverse, before.reverse, ?_, by simpa using hafter⟩
    rw [hsplit]
    simp

/-- The search follows the edges of the graph and no others. -/
theorem edge_iff_needs {d : Definition} {a b : String} : d.Edge a b ↔ d.Needs a b := by
  unfold Edge edges Needs
  split
  next s hfind =>
    have hlast := find?_reverse_eq_some_iff.mp hfind
    rw [List.mem_filter, bne_iff_ne]
    constructor
    · rintro ⟨⟨hdep, hne⟩, hdeclared⟩
      exact ⟨s, hlast, hdep, hne, hdeclared⟩
    · rintro ⟨t, ht, hdep, hne, hdeclared⟩
      -- Only one step is the last of its name.
      have heq : s = t := by
        rwa [← find?_reverse_eq_some_iff, hfind, Option.some_inj] at ht
      exact ⟨⟨heq ▸ hdep, hne⟩, hdeclared⟩
  next hnone =>
    refine iff_of_false (by simp) ?_
    rintro ⟨s, hlast, -⟩
    rw [← find?_reverse_eq_some_iff, hnone] at hlast
    cases hlast

theorem Needs.mem_names {d : Definition} {a b : String} (h : d.Needs a b) : a ∈ d.names := by
  obtain ⟨s, ⟨before, after, hsplit, hname, -⟩, -⟩ := h
  rw [names, hsplit, ← hname]
  simp

theorem IsCycle.isClosedWalk {d : Definition} {c : List String} (h : d.IsCycle c) :
    IsClosedWalk d.Needs c where
  chain := h.chain.imp fun _ _ => edge_iff_needs.mp
  closed := h.closed
  length := by have := h.length; omega

/-! ## 3. Findings of cycles -/

theorem cycle_not_mem_duplicates (path seen names : List String) :
    .cycle path ∉ duplicates seen names := by
  induction names generalizing seen with
  | nil => simp [duplicates]
  | cons name rest ih =>
    rw [duplicates]
    split <;> simp [ih]

theorem cycle_not_mem_dependencyFindings (path names : List String) (s : Step) :
    .cycle path ∉ dependencyFindings names s := by
  intro hmem
  obtain ⟨dependency, -, ⟨-, heq⟩ | ⟨-, -, heq⟩⟩ := mem_dependencyFindings.mp hmem
  · cases heq
  · cases heq

theorem cycle_mem_findings_iff {d : Definition} {path : List String} :
    .cycle path ∈ d.findings ↔ path ∈ d.cycles := by
  have hfirst : Finding.cycle path ∉ if d.steps.isEmpty then [Finding.noSteps d.id] else [] := by
    split <;> simp
  have hlimit : Finding.cycle path ∉
      if d.maxActiveRuns = 0 then [Finding.zeroMaxActiveRuns d.id] else [] := by
    split <;> simp
  simp only [findings, List.mem_append, List.mem_flatMap, List.mem_map, hfirst, hlimit,
    cycle_not_mem_duplicates, cycle_not_mem_dependencyFindings, Finding.cycle.injEq]
  simp

theorem exists_cycle_of_code {f : Finding} (h : f.code = "CYCLE_DETECTED") :
    ∃ path, f = .cycle path := by
  cases f with
  | cycle path => exact ⟨path, rfl⟩
  | _ => exact absurd h (by simp [Finding.code])

/-- The edge is the last one of the path in a finding. -/
def IsClosing (d : Definition) (a b : String) : Prop :=
  ∃ path, .cycle path ∈ d.findings ∧ [a, b] <:+ path

theorem isClosing_iff {d : Definition} {a b : String} :
    d.IsClosing a b ↔ Closes d.cycles a b := by
  simp only [IsClosing, Closes, cycle_mem_findings_iff]

/-! ## 4. What is left without the closing edges -/

/-- An edge that closes no reported cycle. -/
def Open (d : Definition) (a b : String) : Prop :=
  d.Needs a b ∧ ¬d.IsClosing a b

/-- No name leads back to itself along edges that close no reported cycle. -/
theorem not_transGen_open (d : Definition) (a : String) : ¬Relation.TransGen d.Open a a := by
  intro ha
  obtain ⟨order, hall, hsettled⟩ := cycles_settled d
  have hmem : a ∈ d.names := by
    obtain ⟨b, hab, -⟩ := Relation.TransGen.head'_iff.mp ha
    exact hab.1.mem_names
  -- Of the names that do lead back, take the one that the search noted first. The next name on
  -- its way back leads back too, and the edge to it is open.
  obtain ⟨x, -, hx, hedges⟩ := hsettled.exists_minimal (fun x => ¬Relation.TransGen d.Open x x)
    ⟨a, hall hmem, hmem, not_not.mpr ha⟩
  obtain ⟨y, hxy, hback⟩ := Relation.TransGen.head'_iff.mp (not_not.mp hx)
  rcases hedges y (edge_iff_needs.mpr hxy.1) with hnot | hclose
  · exact hnot (.tail' hback hxy)
  · exact hxy.2 (isClosing_iff.mpr hclose)

theorem not_isClosedWalk_open (d : Definition) (walk : List String) :
    ¬IsClosedWalk d.Open walk := by
  intro h
  obtain ⟨a, b, rest, rfl, -⟩ := h.exists_eq_cons
  exact d.not_transGen_open a (h.transGen_self List.mem_cons_self)

theorem exists_closing_of_isClosedWalk {d : Definition} {walk : List String}
    (h : IsClosedWalk d.Needs walk) : ∃ a b, [a, b] <:+: walk ∧ d.IsClosing a b := by
  refine Classical.byContradiction fun hno => d.not_isClosedWalk_open walk ?_
  -- A walk without a closing edge would be one along open edges.
  have hchain : walk.IsChain d.Open := List.isChain_iff_getElem.mpr fun i hi =>
    ⟨h.chain.getElem i hi,
      fun hclose => hno ⟨_, _, (List.isChain_isInfix walk).getElem i hi, hclose⟩⟩
  exact ⟨hchain, h.closed, h.length⟩

/-- Every closed walk along dependencies takes the last edge of a reported cycle, so that none is
left without those edges; and a workflow is said to have cycles exactly if it has a closed walk. -/
theorem closing_edges_cut_cycles (d : Definition) :
    (∀ walk, IsClosedWalk d.Needs walk → ∃ a b, [a, b] <:+: walk ∧ d.IsClosing a b) ∧
    (∀ walk, ¬IsClosedWalk (fun a b => d.Needs a b ∧ ¬d.IsClosing a b) walk) ∧
    (d.hasCycles = true ↔ ∃ walk, IsClosedWalk d.Needs walk) := by
  refine ⟨fun walk => exists_closing_of_isClosedWalk, d.not_isClosedWalk_open, ?_, ?_⟩
  · intro h
    obtain ⟨c, hc⟩ := List.exists_mem_of_ne_nil d.cycles (by simpa [hasCycles] using h)
    exact ⟨c, (isCycle_of_mem_cycles hc).isClosedWalk⟩
  · rintro ⟨walk, hwalk⟩
    obtain ⟨a, b, -, path, hpath, -⟩ := exists_closing_of_isClosedWalk hwalk
    have hne : d.cycles ≠ [] := List.ne_nil_of_mem (cycle_mem_findings_iff.mp hpath)
    simpa [hasCycles] using hne

/-! ## 5. The path in a finding -/

/-- A finding of a cycle has a path of at least three names that begins and ends with the step of
the finding, in which every name needs the next. But for the last they are different declared names,
and all of them are on the cycle. The message is the path behind its opening words. -/
theorem reported_cycle_is_simple {d : Definition} {f : Finding} (hf : f ∈ d.findings)
    (hcode : f.code = "CYCLE_DETECTED") :
    ∃ name path, f.step? = some name ∧
      f.message = "Dependency cycle detected: " ++ " -> ".intercalate path ∧
      3 ≤ path.length ∧ path.head? = some name ∧ path.getLast? = some name ∧
      path.dropLast.Nodup ∧ (∀ a ∈ path, a ∈ d.names) ∧ path.IsChain d.Needs ∧
      ∀ a ∈ path, Relation.TransGen d.Needs a a := by
  obtain ⟨path, rfl⟩ := exists_cycle_of_code hcode
  have hcycle := isCycle_of_mem_cycles (cycle_mem_findings_iff.mp hf)
  have hwalk := hcycle.isClosedWalk
  obtain ⟨name, next, rest, rfl, -⟩ := hwalk.exists_eq_cons
  exact ⟨name, name :: next :: rest, rfl, rfl, hcycle.length, rfl, hcycle.closed.symm,
    hcycle.nodup, hcycle.declared, hwalk.chain, fun a => hwalk.transGen_self⟩

/-- A ring of two steps, and a third that leads to it. Of the steps with one name the last counts,
which also lists itself and a name that is not declared. -/
def ringDefinition : Definition where
  id := "ring"
  steps := [{ name := "publish", dependencies := ["clean"] },
    { name := "fetch", dependencies := ["publish"] },
    { name := "clean", dependencies := ["fetch"] },
    { name := "fetch", dependencies := ["fetch", "mirror", "clean"] }]

theorem reported_cycle_is_simple_ring :
    Finding.cycle ["clean", "fetch", "clean"] ∈ ringDefinition.findings ∧
      ∃ name path, (Finding.cycle ["clean", "fetch", "clean"]).step? = some name ∧
        (Finding.cycle ["clean", "fetch", "clean"]).message =
          "Dependency cycle detected: " ++ " -> ".intercalate path ∧
        3 ≤ path.length ∧ path.head? = some name ∧ path.getLast? = some name ∧
        path.dropLast.Nodup ∧ (∀ a ∈ path, a ∈ ringDefinition.names) ∧
        path.IsChain ringDefinition.Needs ∧
        ∀ a ∈ path, Relation.TransGen ringDefinition.Needs a a :=
  ⟨by decide, reported_cycle_is_simple (by decide) rfl⟩

end Definition

end MediaCatalog.Workflow
