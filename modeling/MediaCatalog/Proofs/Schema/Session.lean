import Mathlib.Data.List.Dedup
import MediaCatalog.Schema.Session

/-!
# Sessions — what any sequence of builds leaves in the list and in the registry

A session keeps its models twice: in a list, where a model built again keeps its place, and in a
registry, where it is looked up by name. The two are compared through the look-up equation of the
registry (`get?_register`) and the members of the list (`mem_put`); what holds of both after one
more model (`Follows.add`) then holds after any calls.
-/

namespace MediaCatalog

/-! ## 1. One more model in a list and in a registry -/

namespace Registry

theorem names_put (m : Model) (models : List Model) :
    (put m models).map Model.name =
      if m.name ∈ models.map Model.name then models.map Model.name
      else models.map Model.name ++ [m.name] := by
  induction models with
  | nil => rfl
  | cons n rest ih =>
    rw [put]
    by_cases hname : n.name = m.name
    · rw [if_pos hname, if_pos (by simp [hname])]
      simp [hname]
    · rw [if_neg hname, List.map_cons, ih]
      by_cases hmem : m.name ∈ rest.map Model.name
      · rw [if_pos hmem, if_pos (by simp [hmem]), List.map_cons]
      · rw [if_neg hmem, if_neg (by simpa [Ne.symm hname] using hmem), List.map_cons,
          List.cons_append]

theorem length_put (m : Model) (models : List Model) :
    (put m models).length =
      if m.name ∈ models.map Model.name then models.length else models.length + 1 := by
  have hlength := congrArg List.length (names_put m models)
  rw [List.length_map] at hlength
  rw [hlength]
  split <;> simp

theorem mem_names_put {m : Model} {models : List Model} {name : String} :
    name ∈ (put m models).map Model.name ↔ name = m.name ∨ name ∈ models.map Model.name := by
  rw [names_put]
  split
  next hmem => exact ⟨Or.inr, fun h => h.elim (fun heq => heq ▸ hmem) id⟩
  next => rw [List.mem_append, List.mem_singleton, or_comm]

theorem mem_put {m n : Model} {models : List Model} (hnodup : (models.map Model.name).Nodup) :
    n ∈ put m models ↔ n = m ∨ n ∈ models ∧ n.name ≠ m.name := by
  induction models with
  | nil => simp [put]
  | cons x rest ih =>
    obtain ⟨hx, hrest⟩ := List.nodup_cons.mp hnodup
    rw [put]
    by_cases hname : x.name = m.name
    · -- No model behind the one that gives way has its name.
      have hother : ∀ n ∈ rest, n.name ≠ m.name := fun n hn heq =>
        hx (hname.trans heq.symm ▸ List.mem_map_of_mem hn)
      rw [if_pos hname, List.mem_cons, List.mem_cons]
      constructor
      · rintro (heq | hn)
        · exact Or.inl heq
        · exact Or.inr ⟨Or.inr hn, hother n hn⟩
      · rintro (heq | ⟨rfl | hn, hne⟩)
        · exact Or.inl heq
        · exact absurd hname hne
        · exact Or.inr hn
    · rw [if_neg hname, List.mem_cons, List.mem_cons, ih hrest]
      constructor
      · rintro (rfl | heq | ⟨hn, hne⟩)
        · exact Or.inr ⟨Or.inl rfl, hname⟩
        · exact Or.inl heq
        · exact Or.inr ⟨Or.inr hn, hne⟩
      · rintro (heq | ⟨rfl | hn, hne⟩)
        · exact Or.inr (Or.inl heq)
        · exact Or.inl rfl
        · exact Or.inr (Or.inr ⟨hn, hne⟩)

theorem find?_put (m : Model) (models : List Model) (name : String) :
    (put m models).find? (·.name == name) =
      if name = m.name then some m else models.find? (·.name == name) := by
  induction models with
  | nil =>
    rw [put, List.find?_singleton, List.find?_nil]
    by_cases hname : name = m.name
    · rw [if_pos hname, if_pos (by simp [hname])]
    · rw [if_neg hname, if_neg (by simpa using Ne.symm hname)]
  | cons n rest ih =>
    rw [put]
    by_cases hn : n.name = m.name
    · -- One model gives way to another, and both have the same name.
      rw [if_pos hn, List.find?_cons, List.find?_cons, hn]
      by_cases hname : name = m.name
      · rw [if_pos hname, hname, beq_self_eq_true]
      · rw [if_neg hname, beq_false_of_ne (Ne.symm hname)]
    · rw [if_neg hn, List.find?_cons, List.find?_cons, ih]
      by_cases hname : name = m.name
      · rw [if_pos hname, if_pos hname, hname, beq_false_of_ne hn]
      · rw [if_neg hname, if_neg hname]

theorem get?_register (m : Model) (r : Registry) (name : String) :
    (r.register m).get? name = if name = m.name then some m else r.get? name :=
  find?_put m r.models name

theorem contains_iff {r : Registry} {name : String} :
    r.contains name = true ↔ name ∈ r.models.map Model.name := by
  rw [contains, get?, List.find?_isSome, List.mem_map]
  simp only [beq_iff_eq]

theorem size_register (m : Model) (r : Registry) :
    (r.register m).size = if r.contains m.name = true then r.size else r.size + 1 := by
  simp only [contains_iff]
  exact length_put m r.models

theorem contains_register {m : Model} {r : Registry} {name : String} :
    (r.register m).contains name = true ↔ name = m.name ∨ r.contains name = true := by
  rw [contains_iff, contains_iff]
  exact mem_names_put

end Registry

theorem Model.name_of_ofSchema {name : String} {schema : Json} {m : Model}
    (h : ofSchema name schema = .ok m) : m.name = name := by
  unfold ofSchema at h
  split at h
  · split at h
    · split at h
      · rw [Except.ok.injEq] at h
        rw [← h]
      · cases h
    · cases h
  · cases h

namespace Session

/-! ## 2. Models built one after the other -/

/-- The model is the last of its name. -/
def IsLatest (history : List Model) (m : Model) : Prop :=
  ∃ before after, history = before ++ m :: after ∧ ∀ n ∈ after, n.name ≠ m.name

theorem isLatest_concat {history : List Model} {m n : Model} :
    IsLatest (history ++ [m]) n ↔ n = m ∨ IsLatest history n ∧ n.name ≠ m.name := by
  constructor
  · -- Either nothing comes behind the model, or the new one comes last of what does.
    rintro ⟨before, after, hsplit, hafter⟩
    rcases List.eq_nil_or_concat after with rfl | ⟨front, last, rfl⟩
    · exact Or.inl (List.singleton_inj.mp (List.append_inj' hsplit rfl).2).symm
    · rw [List.concat_eq_append, ← List.cons_append, ← List.append_assoc] at hsplit
      obtain ⟨hfront, hlast⟩ := List.append_inj' hsplit rfl
      rw [List.concat_eq_append] at hafter
      refine Or.inr ⟨⟨before, front, hfront, fun x hx => hafter x (by simp [hx])⟩, ?_⟩
      rw [List.singleton_inj.mp hlast]
      exact (hafter last (by simp)).symm
  · rintro (rfl | ⟨⟨before, after, rfl, hafter⟩, hne⟩)
    · exact ⟨history, [], rfl, by simp⟩
    · refine ⟨before, after ++ [m], by simp, fun x hx => ?_⟩
      rcases List.mem_append.mp hx with hx | hx
      · exact hafter x hx
      · rw [List.mem_singleton.mp hx]
        exact hne.symm

/-- When a name was first built, counted in models. -/
def firstBuild (history : List Model) (name : String) : Nat :=
  (history.map Model.name).idxOf name

/-- What a session holds after the models of a history were built, one after the other. -/
structure Follows (history : List Model) (s : Session) : Prop where
  order : (s.models.map Model.name).Pairwise fun a b =>
    firstBuild history a < firstBuild history b
  latest : ∀ m, m ∈ s.models ↔ IsLatest history m
  named : ∀ name, name ∈ s.models.map Model.name ↔ name ∈ history.map Model.name
  registered : ∀ name, s.registry.contains name = true ↔ name ∈ s.models.map Model.name
  size : s.registry.size = s.models.length
  found : ∀ m ∈ s.models, s.registry.get? m.name = some m

theorem follows_nil : Follows [] {} where
  order := .nil
  latest m := by simp [IsLatest]
  named name := by simp
  registered name := by simp [Registry.contains, Registry.get?]
  size := rfl
  found m hm := by simp at hm

namespace Follows
variable {history : List Model} {s : Session}

theorem nodup (h : Follows history s) : (s.models.map Model.name).Nodup :=
  h.order.imp fun hlt heq => absurd (heq ▸ hlt) (Nat.lt_irrefl _)

/-- Names that were built keep their places; a new one comes behind them. -/
theorem order_add (h : Follows history s) (m : Model) :
    ((Registry.put m s.models).map Model.name).Pairwise fun a b =>
      firstBuild (history ++ [m]) a < firstBuild (history ++ [m]) b := by
  -- One more model at the end does not move the first builds of names that are there.
  have hkeep : ∀ a ∈ s.models.map Model.name,
      firstBuild (history ++ [m]) a = firstBuild history a := by
    intro a ha
    rw [firstBuild, List.map_append, List.idxOf_append_of_mem ((h.named a).mp ha), firstBuild]
  have hold : (s.models.map Model.name).Pairwise fun a b =>
      firstBuild (history ++ [m]) a < firstBuild (history ++ [m]) b := by
    refine h.order.imp_of_mem fun {a b} ha hb hlt => ?_
    rwa [hkeep a ha, hkeep b hb]
  rw [Registry.names_put]
  split
  next => exact hold
  next hnew =>
    rw [h.named] at hnew
    refine List.pairwise_append.mpr ⟨hold, List.pairwise_singleton _ _, fun a ha b hb => ?_⟩
    rw [List.mem_singleton.mp hb, hkeep a ha, firstBuild, firstBuild, List.map_append,
      List.idxOf_append_of_notMem hnew, List.map_singleton, List.idxOf_cons_self, Nat.add_zero]
    exact List.idxOf_lt_length_of_mem ((h.named a).mp ha)

theorem add (h : Follows history s) (m : Model) : Follows (history ++ [m]) (s.add m) where
  order := h.order_add m
  latest n := by
    rw [isLatest_concat, ← h.latest]
    exact Registry.mem_put h.nodup
  named name := by
    show name ∈ (Registry.put m s.models).map Model.name ↔ _
    rw [Registry.mem_names_put, h.named, List.map_append, List.mem_append, List.map_singleton,
      List.mem_singleton, or_comm]
  registered name := by
    show (s.registry.register m).contains name = true ↔
      name ∈ (Registry.put m s.models).map Model.name
    rw [Registry.contains_register, Registry.mem_names_put, h.registered]
  size := by
    show (s.registry.register m).size = (Registry.put m s.models).length
    rw [Registry.size_register, Registry.length_put, h.size]
    simp only [h.registered]
  found n hn := by
    show (s.registry.register m).get? n.name = some n
    rw [Registry.get?_register]
    rcases (Registry.mem_put h.nodup).mp hn with rfl | ⟨hn, hne⟩
    · rw [if_pos rfl]
    · rw [if_neg hne, h.found n hn]

theorem foldl_add (h : Follows history s) (models : List Model) :
    Follows (history ++ models) (models.foldl (fun s m => s.add m) s) := by
  induction models generalizing history s with
  | nil => rwa [List.append_nil]
  | cons m rest ih =>
    rw [List.foldl_cons, List.append_cons]
    exact ih (h.add m)

end Follows

/-! ## 3. Calls -/

/-- The models of names, up to the first without one. -/
def modelsOf (document : SchemaDocument) : List String → List Model
  | [] => []
  | name :: rest =>
    match modelOf document name with
    | .ok m => m :: modelsOf document rest
    | .error _ => []

theorem build_fst (document : SchemaDocument) (names : List String) (s : Session) :
    (build document names s).1 = (modelsOf document names).foldl (fun s m => s.add m) s := by
  induction names generalizing s with
  | nil => rfl
  | cons name rest ih =>
    rw [build, modelsOf]
    cases modelOf document name with
    | ok m => exact ih (s.add m)
    | error fault => rfl

theorem exists_ofSchema_of_modelOf {document : SchemaDocument} {name : String} {m : Model}
    (h : modelOf document name = .ok m) : ∃ schema, Model.ofSchema name schema = .ok m := by
  unfold modelOf at h
  split at h
  next => cases h
  next schema _ =>
    split at h
    next hm =>
      cases h
      exact ⟨schema, hm⟩
    next => cases h

theorem name_of_modelOf {document : SchemaDocument} {name : String} {m : Model}
    (h : modelOf document name = .ok m) : m.name = name := by
  obtain ⟨schema, hschema⟩ := exists_ofSchema_of_modelOf h
  exact Model.name_of_ofSchema hschema

theorem exists_modelOf_of_mem_modelsOf {document : SchemaDocument} {names : List String} {m : Model}
    (h : m ∈ modelsOf document names) : ∃ name ∈ names, modelOf document name = .ok m := by
  induction names with
  | nil => cases h
  | cons name rest ih =>
    rw [modelsOf] at h
    cases hname : modelOf document name with
    | error fault =>
      rw [hname] at h
      cases h
    | ok n =>
      rw [hname] at h
      rcases List.mem_cons.mp h with rfl | h
      · exact ⟨name, List.mem_cons_self, hname⟩
      · obtain ⟨other, hother, hm⟩ := ih h
        exact ⟨other, List.mem_cons_of_mem name hother, hm⟩

theorem names_modelsOf {document : SchemaDocument} {names : List String} {s : Session}
    (h : (build document names s).2 = none) :
    (modelsOf document names).map Model.name = names := by
  induction names generalizing s with
  | nil => rfl
  | cons name rest ih =>
    rw [build] at h
    rw [modelsOf]
    cases hm : modelOf document name with
    | ok m =>
      rw [hm] at h
      rw [List.map_cons, ih h, name_of_modelOf hm]
    | error fault =>
      rw [hm] at h
      cases h

/-- A call on a new session that does not fail makes a model of every name it is given, once. -/
theorem length_models_of_build {document : SchemaDocument} {names : List String}
    (h : (build document names {}).2 = none) :
    (build document names {}).1.models.length = names.dedup.length := by
  have hfollows := follows_nil.foldl_add (modelsOf document names)
  rw [← build_fst, List.nil_append] at hfollows
  -- Both lists have the same names, each of them once, but not always in the same order.
  have hperm : ((build document names {}).1.models.map Model.name).Perm names.dedup := by
    rw [List.perm_ext_iff_of_nodup hfollows.nodup names.nodup_dedup]
    intro name
    rw [hfollows.named, names_modelsOf h, List.mem_dedup]
  rw [← hperm.length_eq, List.length_map]

/-- The names behind the first that has no model do not count, and that one changes nothing. -/
theorem build_append_fault {document : SchemaDocument} {front : List String}
    (hfront : ∀ n ∈ front, ∃ m, modelOf document n = .ok m) {name : String} {fault : BuildFault}
    (hname : modelOf document name = .error fault) (rest : List String) (s : Session) :
    (build document front s).2 = none ∧
      build document (front ++ name :: rest) s = ((build document front s).1, some fault) := by
  induction front generalizing s with
  | nil => exact ⟨rfl, by simp only [List.nil_append, build, hname]⟩
  | cons first front ih =>
    obtain ⟨⟨m, hm⟩, hfront⟩ := List.forall_mem_cons.mp hfront
    rw [List.cons_append, build, build, hm]
    exact ih hfront (s.add m)

/-- A document, and the names of the models that are to be built from it. -/
structure Call where
  document : SchemaDocument
  names : List String

/-- All models that calls build, those of calls that fail later on included. -/
def builtBy (calls : List Call) : List Model :=
  calls.flatMap fun c => modelsOf c.document c.names

/-- The session after several calls. -/
def ofCalls (calls : List Call) : Session :=
  calls.foldl (fun s c => (build c.document c.names s).1) {}

theorem Follows.foldl_build {history : List Model} {s : Session} (h : Follows history s)
    (calls : List Call) : Follows (history ++ builtBy calls)
      (calls.foldl (fun s c => (build c.document c.names s).1) s) := by
  induction calls generalizing history s with
  | nil => rwa [builtBy, List.flatMap_nil, List.append_nil]
  | cons c rest ih =>
    have hcall := h.foldl_add (modelsOf c.document c.names)
    rw [← build_fst] at hcall
    rw [List.foldl_cons, builtBy, List.flatMap_cons, ← List.append_assoc]
    exact ih hcall

theorem follows_ofCalls (calls : List Call) : Follows (builtBy calls) (ofCalls calls) :=
  follows_nil.foldl_build calls

/-- After any calls the names in the list differ, the registry has just these names and finds the
models of the list under them; the list is in the order of first builds and has the last model built
of every name. A name that cannot be built ends its call and leaves what the names before it made. -/
theorem session_follows_builds (calls : List Call) :
    ((ofCalls calls).models.map Model.name).Nodup ∧
    (∀ name, (ofCalls calls).registry.contains name = true ↔
      name ∈ (ofCalls calls).models.map Model.name) ∧
    (ofCalls calls).registry.size = (ofCalls calls).models.length ∧
    (∀ m ∈ (ofCalls calls).models, (ofCalls calls).registry.get? m.name = some m) ∧
    ((ofCalls calls).models.map Model.name).Pairwise (fun a b =>
      firstBuild (builtBy calls) a < firstBuild (builtBy calls) b) ∧
    (∀ m, m ∈ (ofCalls calls).models ↔ IsLatest (builtBy calls) m) ∧
    ∀ (document : SchemaDocument) (front : List String) (name : String) (rest : List String)
      (fault : BuildFault), (∀ n ∈ front, ∃ m, modelOf document n = .ok m) →
      modelOf document name = .error fault →
      (build document front (ofCalls calls)).2 = none ∧
        build document (front ++ name :: rest) (ofCalls calls) =
          ((build document front (ofCalls calls)).1, some fault) := by
  have h := follows_ofCalls calls
  refine ⟨h.nodup, h.registered, h.size, h.found, h.order, h.latest, ?_⟩
  intro document front name rest fault hfront hname
  exact build_append_fault hfront hname rest (ofCalls calls)

/-- A call that fails at its third name, and one that builds the first model again. -/
example :
    let schema (text : String) : Json :=
      .object [("description", .string text), ("properties", .object [])]
    ((ofCalls [⟨⟨.empty, [("Tag", schema "old"), ("Source", schema "of media")]⟩,
        ["Tag", "Source", "Image", "Tag"]⟩,
      ⟨⟨.empty, [("Tag", schema "new")]⟩, ["Tag"]⟩]).models.map fun m => (m.name, m.description)) =
      [("Tag", "new"), ("Source", "of media")] := by
  cbv

end Session

end MediaCatalog
