import MediaCatalog.BatchedUpdate.Trigger
import MediaCatalog.Proofs.Json.Reading

/-!
# Payloads — what is sent is what is meant

A payload is read back from its text, whatever its strings hold, also from a text with other members
beside its own and all of them in any order (`parse?_text_of_perm`). The body that starts a run is
read back as well, so that it determines the payload (`body_determines_payload`).
-/

namespace MediaCatalog.BatchedUpdate

namespace Payload

/-! ## 1. Members in any order -/

def members (p : Payload) : Json.Members :=
  [("query_id", .string p.queryId), ("table_name", .string p.tableName),
    ("select_query", .string p.selectQuery), ("update_query", .string p.updateQuery),
    ("dry_run", .bool p.dryRun)]

theorem once?_of_perm {ms ns : Json.Members} (h : ms.Perm ns) {key : String} {v : Json}
    (hv : ns.filter (·.1 == key) = [(key, v)]) : ms.once? key = some (some v) := by
  have hms : ms.filter (·.1 == key) = [(key, v)] :=
    List.perm_singleton.mp (hv ▸ h.filter (·.1 == key))
  rw [Json.Members.once?, hms]

theorem ofMembers?_of_perm {p : Payload} {ms : Json.Members} (h : ms.Perm p.members) :
    ofMembers? ms = some p := by
  unfold ofMembers?
  rw [once?_of_perm h (v := .string p.queryId) rfl, once?_of_perm h (v := .string p.tableName) rfl,
    once?_of_perm h (v := .string p.selectQuery) rfl,
    once?_of_perm h (v := .string p.updateQuery) rfl, once?_of_perm h (v := .bool p.dryRun) rfl]
  rfl

theorem only_members (p : Payload) : p.members.only keys = p.members :=
  rfl

theorem only_perm {p : Payload} {others ms : Json.Members} (hothers : ∀ m ∈ others, m.1 ∉ keys)
    (h : ms.Perm (p.members ++ others)) : (ms.only keys).Perm p.members := by
  have hnone : others.only keys = [] :=
    List.filter_eq_nil_iff.mpr fun m hm => by simpa using hothers m hm
  have hsplit : Json.Members.only keys (p.members ++ others) = p.members := by
    rw [Json.Members.only, List.filter_append, ← Json.Members.only, ← Json.Members.only,
      only_members, hnone, List.append_nil]
  have hperm : (ms.only keys).Perm (Json.Members.only keys (p.members ++ others)) := h.filter _
  rwa [hsplit] at hperm

theorem numberFree_members (p : Payload) (depth : Nat) :
    ∀ m ∈ p.members, Json.NumberFree depth m.2 := by
  simp only [members, List.forall_mem_cons]
  exact ⟨.string _ _, .string _ _, .string _ _, .string _ _, .bool _ _, by simp⟩

theorem keysDistinct_json (p : Payload) : p.json.KeysDistinct := by
  have hkeys : keys.Nodup := by decide
  refine .object hkeys ?_
  simp only [List.forall_mem_cons]
  exact ⟨.string _, .string _, .string _, .string _, .bool _, by simp⟩

/-- The members with other keys may hold any values. -/
theorem parse?_text_of_perm {p : Payload} {others ms : Json.Members}
    (hothers : ∀ m ∈ others, m.1 ∉ keys) (h : ms.Perm (p.members ++ others)) :
    parse? (Json.object ms).text = some p := by
  have hvalues : ∀ m ∈ ms, m.1 ∈ keys → Json.NumberFree Json.Reader.depthLimit m.2 := by
    intro m hm hkey
    obtain hown | hother := List.mem_append.mp (h.mem_iff.mp hm)
    · exact p.numberFree_members _ m hown
    · exact absurd hkey (hothers m hother)
  rw [parse?, Json.readFor?_text hvalues, Option.bind_some, ofJson?,
    ofMembers?_of_perm (only_perm hothers h)]

theorem ofJson?_json (p : Payload) : ofJson? p.json = some p :=
  ofMembers?_of_perm (List.Perm.refl p.members)

end Payload

/-! ## 2. Bodies -/

theorem parse?_body (t : Trigger) (run : String) (p : Payload) :
    Json.parse? (t.startRequest run p).body =
      some (.object [("dag_run_id", .string run), ("conf", p.json)]) := by
  have hfree : Json.NumberFree Json.Reader.depthLimit
      (.object [("dag_run_id", .string run), ("conf", p.json)]) := by
    refine .object (List.forall_mem_cons.mpr ⟨.string _ _, List.forall_mem_cons.mpr ⟨?_, by simp⟩⟩)
    exact .object (p.numberFree_members _)
  have hdistinct : (Json.object [("dag_run_id", .string run), ("conf", p.json)]).KeysDistinct := by
    have hkeys : ["dag_run_id", "conf"].Nodup := by decide
    refine .object hkeys
      (List.forall_mem_cons.mpr ⟨.string _, List.forall_mem_cons.mpr ⟨?_, by simp⟩⟩)
    exact p.keysDistinct_json
  rw [Trigger.startRequest, Json.parse?_text hfree, hdistinct.settle_eq]

/-- The text of a payload is read as that payload, also with other members beside its own and in
any order. The body that starts a run holds the payload, and no other payload has the same body. -/
theorem body_determines_payload (p : Payload) :
    Payload.parse? p.json.text = some p ∧
    (∀ own others ms : Json.Members, p.json = .object own → (∀ m ∈ others, m.1 ∉ Payload.keys) →
      ms.Perm (own ++ others) → Payload.parse? (Json.object ms).text = some p) ∧
    (∀ (t : Trigger) (run : String), Json.parse? (t.startRequest run p).body =
      some (.object [("dag_run_id", .string run), ("conf", p.json)])) ∧
    ∀ (t t' : Trigger) (run run' : String) (q : Payload),
      (t.startRequest run p).body = (t'.startRequest run' q).body → p = q := by
  refine ⟨?_, fun own others ms hown => ?_, fun t run => parse?_body t run p, ?_⟩
  · have hnone : ∀ m ∈ ([] : Json.Members), m.1 ∉ Payload.keys := by simp
    exact Payload.parse?_text_of_perm hnone (by rw [List.append_nil]; exact List.Perm.refl _)
  · obtain rfl : p.members = own := Json.object.inj hown
    exact Payload.parse?_text_of_perm
  · intro t t' run run' q hbody
    have hp := parse?_body t run p
    rw [hbody, parse?_body t' run' q] at hp
    have hjson : q.json = p.json := by
      simp only [Option.some.injEq, Json.object.injEq, List.cons.injEq, Prod.mk.injEq] at hp
      exact hp.2.1.2
    have hof := p.ofJson?_json
    rw [← hjson, q.ofJson?_json] at hof
    exact (Option.some.inj hof).symm

end MediaCatalog.BatchedUpdate
