import MediaCatalog.Proofs.Workflow.Order

/-!
# The least order — of all orders of the steps the one that keeps closest to their declaration

Orders are compared by the places at which their steps are declared, the first difference decides.
The execution order takes the earliest step that can follow; any other order takes a later one where
it first differs, so no rearrangement of the rest can make up for it.
-/

namespace MediaCatalog.Workflow

/-! ## 1. First differences -/

section FirstDifference
variable {α : Type} {rank : α → Nat}

/-- Of two lists the first is the smaller one if its element is where they first differ. -/
theorem eq_or_map_lt_of_first_difference {xs ys : List α} (hlength : xs.length = ys.length)
    (hfirst : ∀ front x xs' y ys', xs = front ++ x :: xs' → ys = front ++ y :: ys' →
      y = x ∨ rank x < rank y) :
    ys = xs ∨ xs.map rank < ys.map rank := by
  induction xs generalizing ys with
  | nil => exact Or.inl (List.eq_nil_of_length_eq_zero hlength.symm)
  | cons x xs ih =>
    cases ys with
    | nil => cases hlength
    | cons y ys =>
      rw [List.map_cons, List.map_cons, List.cons_lt_cons_iff]
      rcases hfirst [] x xs y ys rfl rfl with rfl | hlt
      · -- The heads agree, so the first difference is one of the tails.
        have htail := ih (Nat.succ.inj hlength) fun front x' xs' y' ys' hxs hys =>
          hfirst (y :: front) x' xs' y' ys' (by rw [hxs, List.cons_append])
            (by rw [hys, List.cons_append])
        rcases htail with rfl | hlt
        · exact Or.inl rfl
        · exact Or.inr (Or.inr ⟨rfl, hlt⟩)
      · exact Or.inr (Or.inl hlt)

theorem idxOf_le_of_find? [DecidableEq α] {p : α → Bool} {xs : List α} {x y : α}
    (h : xs.find? p = some x) (hy : p y = true) : xs.idxOf x ≤ xs.idxOf y := by
  induction xs with
  | nil => cases h
  | cons a xs ih =>
    rw [List.find?_cons] at h
    split at h
    next =>
      rw [Option.some.injEq] at h
      rw [h, List.idxOf_cons_self]
      exact Nat.zero_le _
    next ha =>
      have hne : ∀ b, p b = true → a ≠ b := fun b hb heq => by rw [heq, hb] at ha; cases ha
      rw [List.idxOf_cons_ne _ (hne x (List.find?_some h)), List.idxOf_cons_ne _ (hne y hy)]
      exact Nat.succ_le_succ (ih h)

end FirstDifference

namespace Definition

/-! ## 2. Orders and what can follow -/

/-- All steps in an order in which each comes after what it needs. -/
structure IsOrder (d : Definition) (order : List Step) : Prop where
  perm : order.Perm d.steps
  first : DependenciesFirst order

/-- The places at which the steps of an order are declared. -/
def places (d : Definition) (order : List Step) : List Nat :=
  order.map fun s => d.steps.idxOf s

/-- A step that has not been placed and needs only placed ones. -/
structure CanFollow (d : Definition) (placed : List Step) (s : Step) : Prop where
  declared : s ∈ d.steps
  unplaced : s ∉ placed
  supplied : ∀ dependency ∈ s.dependencies, dependency ∈ placed.map Step.name

theorem isReady_of_canFollow {d : Definition} {placed : List Step} {s : Step}
    (hnodup : d.names.Nodup) (hplaced : placed ⊆ d.steps) (h : d.CanFollow placed s) :
    isReady placed s = true := by
  refine isReady_iff.mpr ⟨fun hname => ?_, h.supplied⟩
  obtain ⟨t, ht, hts⟩ := List.mem_map.mp hname
  rw [eq_of_name_eq hnodup (hplaced ht) h.declared hts] at ht
  exact h.unplaced ht

/-- What comes next in an order can follow what was placed before. -/
theorem IsOrder.canFollow {d : Definition} {before after : List Step} {s : Step}
    (hnodup : d.names.Nodup) (h : d.IsOrder (before ++ s :: after)) : d.CanFollow before s := by
  refine ⟨h.perm.subset (List.mem_append_right _ List.mem_cons_self), fun hmem => ?_,
    h.first before s after rfl⟩
  have hsteps := h.perm.nodup_iff.mpr (List.Nodup.of_map _ hnodup)
  exact (List.nodup_append.mp hsteps).2.2 s hmem s List.mem_cons_self rfl

theorem IsOrder.subset {d : Definition} {before after : List Step}
    (h : d.IsOrder (before ++ after)) : before ⊆ d.steps :=
  fun _ ht => h.perm.subset (List.mem_append_left _ ht)

/-! ## 3. The order of execution -/

/-- What is placed after the first steps is at each time the first step that is ready. -/
theorem exists_append_of_place {d : Definition} {count : Nat} {placed order : List Step}
    (h : d.place count placed = some order) :
    ∃ rest, order = placed ++ rest ∧ ∀ before s after, rest = before ++ s :: after →
      d.steps.find? (isReady (placed ++ before)) = some s := by
  induction count generalizing placed with
  | zero =>
    rw [place, Option.some.injEq] at h
    exact ⟨[], by rw [List.append_nil, h], by simp⟩
  | succ count ih =>
    rw [place] at h
    split at h
    next t hfind =>
      obtain ⟨rest, horder, hrest⟩ := ih h
      refine ⟨t :: rest, by rw [horder, List.append_assoc, List.singleton_append], ?_⟩
      intro before s after hsplit
      cases before with
      | nil =>
        rw [List.nil_append, List.cons.injEq] at hsplit
        rw [List.append_nil, hfind, hsplit.1]
      | cons u before =>
        rw [List.cons_append, List.cons.injEq] at hsplit
        have hnext := hrest before s after hsplit.2
        rwa [List.append_assoc, List.singleton_append, hsplit.1] at hnext
    next => cases h

theorem find?_of_executionOrder {d : Definition} {before after : List Step} {s : Step}
    (h : d.executionOrder = .ok (before ++ s :: after)) :
    d.steps.find? (isReady before) = some s := by
  obtain ⟨hvalid, -, -⟩ := executionOrder_eq_ok h
  obtain ⟨order, hplace, hok⟩ := executionOrder_of_isValid hvalid
  rw [h, Except.ok.injEq] at hok
  obtain ⟨rest, horder, hrest⟩ := exists_append_of_place hplace
  rw [List.nil_append] at horder
  exact hrest before s after (by rw [← horder, ← hok])

theorem isOrder_of_executionOrder {d : Definition} {order : List Step}
    (h : d.executionOrder = .ok order) : d.names.Nodup ∧ d.IsOrder order := by
  obtain ⟨hvalid, hperm, hfirst⟩ := executionOrder_eq_ok h
  exact ⟨((isValid_iff d).mp hvalid).2.1, hperm, hfirst⟩

/-- A step that could have come next is declared no earlier than the one that did. -/
theorem idxOf_le_of_canFollow {d : Definition} {before after : List Step} {s t : Step}
    (h : d.executionOrder = .ok (before ++ s :: after)) (ht : d.CanFollow before t) :
    d.steps.idxOf s ≤ d.steps.idxOf t := by
  obtain ⟨hnodup, horder⟩ := isOrder_of_executionOrder h
  exact idxOf_le_of_find? (find?_of_executionOrder h)
    (isReady_of_canFollow hnodup horder.subset ht)

/-- The execution order has all steps, each after what it needs. Any other such order is greater,
and at each place stands the earliest declared step that could follow there. -/
theorem executionOrder_isLeast {d : Definition} {order : List Step}
    (h : d.executionOrder = .ok order) :
    d.IsOrder order ∧
    (∀ other, d.IsOrder other → other = order ∨ d.places order < d.places other) ∧
    ∀ before s after, order = before ++ s :: after →
      d.CanFollow before s ∧ ∀ t, d.CanFollow before t → d.steps.idxOf s ≤ d.steps.idxOf t := by
  obtain ⟨hnodup, horder⟩ := isOrder_of_executionOrder h
  refine ⟨horder, fun other hother => ?_, ?_⟩
  · apply eq_or_map_lt_of_first_difference (horder.perm.trans hother.perm.symm).length_eq
    rintro front s rest t rest' rfl rfl
    -- What the other order has in this place could have come here as well.
    have ht := hother.canFollow hnodup
    rcases Nat.lt_or_eq_of_le (idxOf_le_of_canFollow h ht) with hlt | heq
    · exact Or.inr hlt
    · exact Or.inl (List.idxOf_inj (horder.canFollow hnodup).declared |>.mp heq).symm
  · rintro before s after rfl
    exact ⟨horder.canFollow hnodup, fun t ht => idxOf_le_of_canFollow h ht⟩

/-- The step declared first has to wait; of the two others the earlier one goes ahead. -/
def waitingDefinition : Definition :=
  { id := "sync", steps := [{ name := "report", dependencies := ["fetch"] },
      { name := "clean" }, { name := "fetch" }] }

theorem executionOrder_isLeast_waiting :
    waitingDefinition.executionOrder = .ok [{ name := "clean" }, { name := "fetch" },
        { name := "report", dependencies := ["fetch"] }] ∧
      waitingDefinition.IsOrder [{ name := "fetch" },
        { name := "report", dependencies := ["fetch"] }, { name := "clean" }] ∧
      waitingDefinition.places [{ name := "clean" }, { name := "fetch" },
          { name := "report", dependencies := ["fetch"] }] <
        waitingDefinition.places [{ name := "fetch" },
          { name := "report", dependencies := ["fetch"] }, { name := "clean" }] := by
  have horder : waitingDefinition.executionOrder = .ok [{ name := "clean" }, { name := "fetch" },
      { name := "report", dependencies := ["fetch"] }] := rfl
  have hother : waitingDefinition.IsOrder [{ name := "fetch" },
      { name := "report", dependencies := ["fetch"] }, { name := "clean" }] :=
    ⟨by decide, ((DependenciesFirst.nil.concat (by simp)).concat (by simp)).concat (by simp)⟩
  have hleast := (executionOrder_isLeast horder).2.1 _ hother
  exact ⟨horder, hother, hleast.resolve_left (by decide)⟩

end Definition

end MediaCatalog.Workflow
