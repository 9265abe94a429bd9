import Mathlib.Data.List.Chain
import Mathlib.Data.List.Nodup
import Mathlib.Data.List.Perm.Subperm
import MediaCatalog.Workflow.Validation

/-!
# Search for cycles — what the walk through all steps finds and what it leaves

Names are noted when all that they lead to has been followed. Two facts carry everything else: an
edge leads to a name that was noted earlier, unless it is the closing edge of a recorded cycle
(`Settled`), and every recorded cycle is a closed path without repetition (`IsCycle`). Both hold of
any search at any time, so they hold at its end (`cycles_settled`, `isCycle_of_mem_cycles`).
-/

namespace MediaCatalog.Workflow.Definition

/-! ## 1. The graph, its cycles and orders of its names -/

/-- A step of the first name needs the second, another declared name. -/
def Edge (d : Definition) (a b : String) : Prop :=
  b ∈ d.edges a ∧ b ∈ d.names

/-- A closed path of different names, the first of them written again at its end. -/
structure IsCycle (d : Definition) (c : List String) : Prop where
  chain : c.IsChain d.Edge
  closed : c.head? = c.getLast?
  nodup : c.dropLast.Nodup
  declared : ∀ a ∈ c, a ∈ d.names
  length : 3 ≤ c.length

/-- The edge is the last one of a recorded cycle. -/
def Closes (cycles : List (List String)) (a b : String) : Prop :=
  ∃ c ∈ cycles, [a, b] <:+ c

/-- Every edge leads to a name further down the list, or it closes a cycle. -/
def Settled (d : Definition) (cycles : List (List String)) : List String → Prop
  | [] => True
  | a :: older => (∀ b, d.Edge a b → b ∈ older ∨ Closes cycles a b) ∧ d.Settled cycles older

theorem Closes.mono {cycles more : List (List String)} {a b : String} (h : Closes cycles a b)
    (hsub : cycles ⊆ more) : Closes more a b := by
  obtain ⟨c, hc, hab⟩ := h
  exact ⟨c, hsub hc, hab⟩

theorem Settled.mono {d : Definition} {cycles more : List (List String)} {order : List String}
    (h : d.Settled cycles order) (hsub : cycles ⊆ more) : d.Settled more order := by
  induction order with
  | nil => trivial
  | cons a older ih =>
    refine ⟨fun b hb => ?_, ih h.2⟩
    rcases h.1 b hb with hold | hclose
    · exact Or.inl hold
    · exact Or.inr (hclose.mono hsub)

/-- Of the declared names outside a set, the one that was noted first has no edge to another of
them, closing edges apart. -/
theorem Settled.exists_minimal {d : Definition} {cycles : List (List String)} {order : List String}
    (h : d.Settled cycles order) (p : String → Prop) (hex : ∃ a ∈ order, a ∈ d.names ∧ ¬p a) :
    ∃ a ∈ d.names, ¬p a ∧ ∀ b, d.Edge a b → p b ∨ Closes cycles a b := by
  induction order with
  | nil => simp at hex
  | cons a older ih =>
    by_cases hold : ∃ b ∈ older, b ∈ d.names ∧ ¬p b
    · exact ih h.2 hold
    · have ha : a ∈ d.names ∧ ¬p a := by
        obtain ⟨b, hb, hb'⟩ := hex
        rcases List.mem_cons.mp hb with rfl | hb
        · exact hb'
        · exact absurd ⟨b, hb, hb'⟩ hold
      refine ⟨a, ha.1, ha.2, fun b hab => ?_⟩
      rcases h.1 b hab with hb | hclose
      · exact Or.inl (Classical.byContradiction fun hpb => hold ⟨b, hb, hab.2, hpb⟩)
      · exact Or.inr hclose

theorem ne_of_mem_edges {d : Definition} {a b : String} (h : b ∈ d.edges a) : b ≠ a := by
  unfold edges at h
  split at h
  · simpa using (List.mem_filter.mp h).2
  · simp at h

/-! ## 2. Paths and searches -/

/-- A path that a search can be on. -/
structure IsPath (d : Definition) (path : List String) : Prop where
  chain : path.IsChain d.Edge
  nodup : path.Nodup
  declared : ∀ a ∈ path, a ∈ d.names

/-- A path has no more names than there are steps; this bounds the depth of a search. -/
theorem IsPath.length_le {d : Definition} {path : List String} (h : d.IsPath path) :
    path.length ≤ d.steps.length := by
  have hsub := (List.subperm_of_subset h.nodup h.declared).length_le
  rwa [names, List.length_map] at hsub

theorem isPath_singleton {d : Definition} {a : String} (ha : a ∈ d.names) : d.IsPath [a] :=
  ⟨List.isChain_singleton a, List.nodup_singleton a, by simpa using ha⟩

theorem IsPath.extend {d : Definition} {path : List String} {a b : String}
    (h : d.IsPath (path ++ [a])) (hab : d.Edge a b) (hb : b ∉ path ++ [a]) :
    d.IsPath (path ++ [a] ++ [b]) := by
  refine ⟨?_, ?_, ?_⟩
  · rw [List.append_assoc, List.isChain_append]
    have hparts := List.isChain_append.mp h.chain
    refine ⟨hparts.1, by simpa using hab, ?_⟩
    simpa using hparts.2.2
  · rw [List.nodup_append]
    refine ⟨h.nodup, List.nodup_singleton b, ?_⟩
    intro x hx y hy hxy
    rw [List.mem_singleton] at hy
    exact hb (hy ▸ hxy ▸ hx)
  · intro x hx
    rcases List.mem_append.mp hx with hx | hx
    · exact h.declared x hx
    · rw [List.mem_singleton.mp hx]
      exact hab.2

theorem dropWhile_ne_eq_cons {a : String} {path : List String} (ha : a ∈ path) :
    ∃ rest, path.dropWhile (· != a) = a :: rest ∧ a :: rest <:+ path := by
  induction path with
  | nil => simp at ha
  | cons b path ih =>
    by_cases hab : b = a
    · subst hab
      exact ⟨path, by simp, List.suffix_rfl⟩
    · have hmem : a ∈ path := (List.mem_cons.mp ha).resolve_left (Ne.symm hab)
      obtain ⟨rest, hdrop, hsuffix⟩ := ih hmem
      refine ⟨rest, ?_, hsuffix.trans (List.suffix_cons b path)⟩
      rw [List.dropWhile_cons_of_pos (by simpa using hab), hdrop]

/-- The part of a path from a name on, closed by an edge from its end back to that name. -/
theorem IsPath.isCycle {d : Definition} {path : List String} {a b : String}
    (h : d.IsPath (path ++ [a])) (hab : d.Edge a b) (hne : b ≠ a) (hb : b ∈ path ++ [a]) :
    d.IsCycle ((path ++ [a]).dropWhile (· != b) ++ [b]) ∧
      [a, b] <:+ (path ++ [a]).dropWhile (· != b) ++ [b] := by
  obtain ⟨rest, hdrop, hsuffix⟩ := dropWhile_ne_eq_cons hb
  -- The path ends with `a`, which is not `b`, so something follows `b` and the last of it is `a`.
  obtain ⟨mid, hmid⟩ : ∃ mid, rest = mid ++ [a] := by
    obtain ⟨front, hfront⟩ := hsuffix
    rcases List.eq_nil_or_concat rest with hnil | ⟨mid, last, hrest⟩
    · rw [hnil] at hfront
      exact absurd (List.append_inj_right' hfront rfl) (by simpa using hne)
    · refine ⟨mid, ?_⟩
      rw [hrest, List.concat_eq_append, ← List.cons_append, ← List.append_assoc] at hfront
      have hlast : last = a := by simpa using List.append_inj_right' hfront rfl
      rw [hrest, hlast, List.concat_eq_append]
  rw [hdrop]
  refine ⟨⟨?_, ?_, ?_, ?_, ?_⟩, ?_⟩
  · rw [List.isChain_append]
    refine ⟨h.chain.suffix hsuffix, List.isChain_singleton b, ?_⟩
    intro x hx y hy
    rw [hmid, ← List.cons_append, List.getLast?_concat] at hx
    rw [List.head?_cons] at hy
    cases hx
    cases hy
    exact hab
  · rw [List.getLast?_concat, List.cons_append, List.head?_cons]
  · rw [List.dropLast_concat]
    exact h.nodup.sublist hsuffix.sublist
  · intro x hx
    rcases List.mem_append.mp hx with hx | hx
    · exact h.declared x (hsuffix.subset hx)
    · rw [List.mem_singleton.mp hx]
      exact hab.2
  · simp [hmid]
  · exact ⟨b :: mid, by simp [hmid]⟩

/-- What holds of a search while it follows a path. -/
structure Search.Sound (d : Definition) (path : List String) (s : Search) : Prop where
  apart : ∀ a ∈ path, a ∉ s.done
  settled : d.Settled s.cycles s.done
  cycles : ∀ c ∈ s.cycles, d.IsCycle c

/-- A search only adds to what it has noted. -/
structure Search.Grows (s t : Search) : Prop where
  done : s.done ⊆ t.done
  cycles : s.cycles ⊆ t.cycles

theorem Search.Grows.refl (s : Search) : s.Grows s :=
  ⟨List.Subset.refl _, List.Subset.refl _⟩

theorem Search.Grows.trans {s t u : Search} (h : s.Grows t) (h' : t.Grows u) : s.Grows u :=
  ⟨List.Subset.trans h.done h'.done, List.Subset.trans h.cycles h'.cycles⟩

/-- The edge has been looked at: its end is noted, or it closes a recorded cycle. -/
def Search.Covers (s : Search) (a b : String) : Prop :=
  b ∈ s.done ∨ Closes s.cycles a b

theorem Search.Covers.mono {s t : Search} {a b : String} (h : s.Covers a b) (hg : s.Grows t) :
    t.Covers a b := by
  rcases h with hdone | hclose
  · exact Or.inl (hg.done hdone)
  · exact Or.inr (hclose.mono hg.cycles)

/-! ## 3. One edge, the edges of one name, all names -/

/-- What a search does with one dependency of the last name of its path. -/
def lookAt (d : Definition) (fuel : Nat) (path : List String) (s : Search) (next : String) :
    Search :=
  if path.contains next then
    { s with cycles := s.cycles ++ [path.dropWhile (· != next) ++ [next]] }
  else if s.done.contains next || !d.names.contains next then s
  else d.follow fuel path next s

/-- What `follow` makes of a search: it stays sound, loses nothing and notes the name. -/
def Follows (d : Definition) (fuel : Nat) (path : List String) : Prop :=
  ∀ name s, d.IsPath (path ++ [name]) → s.Sound d path → name ∉ s.done →
    (d.follow fuel path name s).Sound d path ∧ s.Grows (d.follow fuel path name s) ∧
      name ∈ (d.follow fuel path name s).done

theorem follow_succ (d : Definition) (fuel : Nat) (path : List String) (name : String)
    (s : Search) :
    d.follow (fuel + 1) path name s =
      let t := (d.edges name).foldl (d.lookAt fuel (path ++ [name])) s
      { t with done := name :: t.done } := rfl

theorem lookAt_sound {d : Definition} {fuel : Nat} {path : List String} {name next : String}
    {s : Search} (hpath : d.IsPath (path ++ [name])) (hs : s.Sound d (path ++ [name]))
    (hnext : next ∈ d.edges name) (hf : d.Follows fuel (path ++ [name])) :
    (d.lookAt fuel (path ++ [name]) s next).Sound d (path ++ [name]) ∧
      s.Grows (d.lookAt fuel (path ++ [name]) s next) ∧
      (next ∈ d.names → (d.lookAt fuel (path ++ [name]) s next).Covers name next) := by
  unfold lookAt
  split
  next hon =>
    rw [List.contains_iff_mem] at hon
    have hedge : d.Edge name next := ⟨hnext, hpath.declared next hon⟩
    -- The name is on the path, so the path from there on is a cycle, and it is recorded.
    obtain ⟨hcycle, hclose⟩ := hpath.isCycle hedge (ne_of_mem_edges hnext) hon
    have hgrows : s.cycles ⊆ s.cycles ++ [(path ++ [name]).dropWhile (· != next) ++ [next]] :=
      List.subset_append_left _ _
    refine ⟨⟨hs.apart, hs.settled.mono hgrows, ?_⟩, ⟨List.Subset.refl _, hgrows⟩, fun _ => ?_⟩
    · intro c hc
      rcases List.mem_append.mp hc with hc | hc
      · exact hs.cycles c hc
      · rw [List.mem_singleton.mp hc]
        exact hcycle
    · exact Or.inr ⟨_, List.mem_append_right _ (List.mem_singleton_self _), hclose⟩
  next hoff =>
    rw [List.contains_iff_mem] at hoff
    split
    next hskip =>
      refine ⟨hs, .refl s, fun hdeclared => Or.inl ?_⟩
      simpa [hdeclared] using hskip
    next hgo =>
      simp only [Bool.or_eq_true, Bool.not_eq_true', not_or, List.contains_iff_mem,
        Bool.not_eq_false] at hgo
      have hedge : d.Edge name next := ⟨hnext, by simpa using hgo.2⟩
      obtain ⟨hsound, hgrows, hdone⟩ := hf next s (hpath.extend hedge hoff) hs hgo.1
      exact ⟨hsound, hgrows, fun _ => Or.inl hdone⟩

theorem foldl_lookAt_sound {d : Definition} {fuel : Nat} {path : List String} {name : String}
    {s : Search} {nexts : List String} (hpath : d.IsPath (path ++ [name]))
    (hs : s.Sound d (path ++ [name])) (hnexts : nexts ⊆ d.edges name)
    (hf : d.Follows fuel (path ++ [name])) :
    (nexts.foldl (d.lookAt fuel (path ++ [name])) s).Sound d (path ++ [name]) ∧
      s.Grows (nexts.foldl (d.lookAt fuel (path ++ [name])) s) ∧
      ∀ b ∈ nexts, b ∈ d.names →
        (nexts.foldl (d.lookAt fuel (path ++ [name])) s).Covers name b := by
  induction nexts generalizing s with
  | nil => exact ⟨hs, .refl s, by simp⟩
  | cons next nexts ih =>
    rw [List.foldl_cons]
    obtain ⟨hone, hgrow, hcover⟩ := lookAt_sound hpath hs (hnexts List.mem_cons_self) hf
    obtain ⟨hall, hgrows, hcovers⟩ := ih hone fun b hb => hnexts (List.mem_cons_of_mem _ hb)
    refine ⟨hall, hgrow.trans hgrows, fun b hb hdeclared => ?_⟩
    rcases List.mem_cons.mp hb with rfl | hb
    · exact (hcover hdeclared).mono hgrows
    · exact hcovers b hb hdeclared

/-- With fuel for the names that are not on its path, following a name does what it should. -/
theorem follow_sound (d : Definition) (fuel : Nat) (path : List String)
    (hfuel : d.steps.length ≤ path.length + fuel) : d.Follows fuel path := by
  induction fuel generalizing path with
  | zero =>
    -- A path through all names cannot be extended, so this case does not arise.
    intro name s hpath
    have hlen := hpath.length_le
    rw [List.length_append, List.length_singleton] at hlen
    omega
  | succ fuel ih =>
    intro name s hpath hs hname
    have hf : d.Follows fuel (path ++ [name]) :=
      ih _ (by rw [List.length_append, List.length_singleton]; omega)
    have hstart : s.Sound d (path ++ [name]) := by
      refine ⟨fun a ha => ?_, hs.settled, hs.cycles⟩
      rcases List.mem_append.mp ha with ha | ha
      · exact hs.apart a ha
      · rw [List.mem_singleton.mp ha]
        exact hname
    obtain ⟨hsound, hgrows, hcovers⟩ :=
      foldl_lookAt_sound hpath hstart (List.Subset.refl (d.edges name)) hf
    -- All edges of the name are covered now, so it can be noted.
    rw [follow_succ]
    refine ⟨⟨?_, ⟨fun b hb => hcovers b hb.1 hb.2, hsound.settled⟩, hsound.cycles⟩,
      hgrows.trans ⟨List.subset_cons_self _ _, List.Subset.refl _⟩, List.mem_cons_self⟩
    intro a ha hdone
    rcases List.mem_cons.mp hdone with rfl | hdone
    · exact (List.nodup_append.mp hpath.nodup).2.2 a ha a (List.mem_singleton_self a) rfl
    · exact hsound.apart a (List.mem_append_left _ ha) hdone

/-- Starts a search at a name that is not noted yet. -/
def searchFrom (d : Definition) (s : Search) (name : String) : Search :=
  if s.done.contains name then s else d.follow d.steps.length [] name s

theorem foldl_searchFrom_sound {d : Definition} {names : List String} {s : Search}
    (hnames : names ⊆ d.names) (hs : s.Sound d []) :
    (names.foldl d.searchFrom s).Sound d [] ∧ s.Grows (names.foldl d.searchFrom s) ∧
      names ⊆ (names.foldl d.searchFrom s).done := by
  induction names generalizing s with
  | nil => exact ⟨hs, .refl s, List.nil_subset _⟩
  | cons name names ih =>
    rw [List.foldl_cons]
    have hone : (d.searchFrom s name).Sound d [] ∧ s.Grows (d.searchFrom s name) ∧
        name ∈ (d.searchFrom s name).done := by
      unfold searchFrom
      split
      next hdone => exact ⟨hs, .refl s, List.contains_iff_mem.mp hdone⟩
      next hnew =>
        rw [List.contains_iff_mem] at hnew
        exact d.follow_sound d.steps.length [] (by simp) name s
          (isPath_singleton (hnames List.mem_cons_self)) hs hnew
    obtain ⟨hsound, hgrow, hdone⟩ := hone
    obtain ⟨hall, hgrows, hdones⟩ := ih (fun b hb => hnames (List.mem_cons_of_mem _ hb)) hsound
    exact ⟨hall, hgrow.trans hgrows, List.cons_subset.mpr ⟨hgrows.done hdone, hdones⟩⟩

/-! ## 4. The end of the search -/

/-- The state in which the walk through all steps ends. -/
def searched (d : Definition) : Search :=
  d.names.foldl d.searchFrom {}

theorem cycles_eq (d : Definition) : d.cycles = d.searched.cycles := rfl

theorem searched_sound (d : Definition) :
    d.searched.Sound d [] ∧ d.names ⊆ d.searched.done := by
  have hstart : Search.Sound d [] {} := ⟨by simp, trivial, by simp⟩
  obtain ⟨hsound, -, hdone⟩ := foldl_searchFrom_sound (List.Subset.refl d.names) hstart
  exact ⟨hsound, hdone⟩

/-- The names can be listed so that every edge leads down the list or closes a recorded cycle. -/
theorem cycles_settled (d : Definition) :
    ∃ order : List String, d.names ⊆ order ∧ d.Settled d.cycles order := by
  rw [cycles_eq]
  exact ⟨d.searched.done, d.searched_sound.2, d.searched_sound.1.settled⟩

theorem isCycle_of_mem_cycles {d : Definition} {c : List String} (h : c ∈ d.cycles) :
    d.IsCycle c := by
  rw [cycles_eq] at h
  exact d.searched_sound.1.cycles c h

end MediaCatalog.Workflow.Definition
