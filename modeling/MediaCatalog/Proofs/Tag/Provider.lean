import MediaCatalog.Proofs.Json.Text
import MediaCatalog.Proofs.Tag.Repair
import MediaCatalog.Proofs.Tag.Spelling

/-!
# Providers — duplicates have one provider, its members in one order

The key of a tag holds the text of its provider, and a text has one value (`Json.text_injective`).
Tags are merged exactly if name and provider are equal. The order of members counts in this: a
provider that is the same value (`Json.Same`) in another order is kept apart.
-/

namespace MediaCatalog

namespace Json

/-! ## 1. The same value -/

/-- Values are the same if the members of their objects are, whatever the order. -/
inductive Same : Json → Json → Prop where
  | null : Same .null .null
  | bool (b : Bool) : Same (.bool b) (.bool b)
  | number (n : Number) : Same (.number n) (.number n)
  | string (s : String) : Same (.string s) (.string s)
  | array {vs ws : List Json} (h : List.Forall₂ Same vs ws) : Same (.array vs) (.array ws)
  | object {ms ns : Members} (h : ∀ key, Option.Rel Same (ms.get? key) (ns.get? key)) :
      Same (.object ms) (.object ns)

mutual

theorem Same.refl (v : Json) : v.Same v := by
  match v with
  | .null => exact .null
  | .bool b => exact .bool b
  | .number n => exact .number n
  | .string s => exact .string s
  | .array vs => exact .array (Same.refl_items vs)
  | .object ms => exact .object fun key => Same.refl_members ms key

theorem Same.refl_items (vs : List Json) : List.Forall₂ Same vs vs := by
  match vs with
  | [] => exact .nil
  | v :: rest => exact .cons (Same.refl v) (Same.refl_items rest)

theorem Same.refl_members (ms : Members) (key : String) :
    Option.Rel Same (ms.get? key) (ms.get? key) := by
  match ms with
  | [] => exact .none
  | (k, v) :: rest =>
    rw [Members.get?]
    split
    · exact .some (Same.refl v)
    · exact Same.refl_members rest key

end

end Json

namespace Tag

/-! ## 2. Keys -/

theorem key_eq_iff {t u : Tag} : t.key = u.key ↔ t.name? = u.name? ∧ t.provider? = u.provider? := by
  have hprovider : t.provider?.map Json.text = u.provider?.map Json.text ↔
      t.provider? = u.provider? :=
    (Option.map_injective fun _ _ h => Json.text_injective h).eq_iff
  rw [key, key, Prod.mk.injEq, hprovider]

/-- The key with the provider itself in place of its text. -/
def identity (t : Tag) : Option String × Option Json :=
  (t.name?, t.provider?)

theorem key_eq_iff_identity_eq {t u : Tag} : t.key = u.key ↔ t.identity = u.identity := by
  rw [key_eq_iff, identity, identity, Prod.mk.injEq]

theorem same_provider_of_identity_eq {t u : Tag} (h : t.identity = u.identity) :
    Option.Rel Json.Same t.provider? u.provider? := by
  rw [(Prod.mk.inj h).2]
  cases u.provider? with
  | none => exact .none
  | some v => exact .some (Json.Same.refl v)

/-! ## 3. The repair -/

/-- A repair merges the tags that have the same decoded name, or none, and the same provider, or
none: it keeps the first of these. No tag is left out for one whose provider is another value. -/
theorem repair_merges_equal_providers (tags : List Tag) :
    (∀ result, repair tags = .ok result ↔
      ∃ decoded, List.Forall₂ Decoded tags decoded ∧ result = firstOfEach identity decoded) ∧
    ∀ result decoded, repair tags = .ok result → List.Forall₂ Decoded tags decoded →
      result.Pairwise (fun t u => t.identity ≠ u.identity) ∧
        ∀ t ∈ decoded, ∃ kept ∈ result, kept.identity = t.identity ∧
          Option.Rel Json.Same kept.provider? t.provider? := by
  have hfirst := firstOfEach_congr fun t u : Tag => key_eq_iff_identity_eq (t := t) (u := u)
  refine ⟨fun result => ?_, fun result decoded hresult hdecoded => ?_⟩
  · simp only [repair_eq_ok_iff, keepFirst_nil, hfirst]
  · obtain ⟨decoded', hdecoded', rfl⟩ := repair_eq_ok_iff.mp hresult
    obtain rfl := forall₂_decoded_unique hdecoded' hdecoded
    refine ⟨?_, fun t ht => ?_⟩
    · exact (List.pairwise_map.mp (nodup_keepFirst [] decoded')).imp fun hne heq =>
        hne (key_eq_iff_identity_eq.mpr heq)
    · obtain ⟨kept, hkept, hkey⟩ := List.mem_map.mp (key_mem_keepFirst ht List.not_mem_nil)
      have hidentity := key_eq_iff_identity_eq.mp hkey
      exact ⟨kept, hkept, hidentity, same_provider_of_identity_eq hidentity⟩

/-- The members of the providers stand in another order, and both tags are kept. -/
theorem repair_keeps_reordered_provider :
    ¬∀ tags result, repair tags = .ok result → result.Pairwise fun t u =>
      ¬(t.name? = u.name? ∧ Option.Rel Json.Same t.provider? u.provider?) := by
  let v : Json := .object [("x", .ofNat 1), ("y", .ofNat 2)]
  let w : Json := .object [("y", .ofNat 2), ("x", .ofNat 1)]
  let t : Tag := ⟨some "a", some v, none, []⟩
  let u : Tag := ⟨some "a", some w, none, []⟩
  intro h
  have hname : Escape.decode "a" = .ok "a" :=
    Escape.decode_of_spells (Escape.spells_self (by decide))
  have hkey : t.key ≠ u.key := by
    rw [Ne, key_eq_iff]
    decide
  have hrepair : repair [t, u] = .ok [t, u] := by
    have hdecoded : List.Forall₂ Decoded [t, u] [t, u] :=
      .cons (.named rfl hname) (.cons (.named rfl hname) .nil)
    exact repair_eq_ok_iff.mpr ⟨[t, u], hdecoded, by simp [keepFirst, hkey.symm]⟩
  have hsame : v.Same w := by
    refine .object fun key => ?_
    have hget : Json.Members.get? key [("x", .ofNat 1), ("y", .ofNat 2)] =
        Json.Members.get? key [("y", .ofNat 2), ("x", .ofNat 1)] := by
      by_cases hx : "x" = key
      · subst hx
        rfl
      · simp [Json.Members.get?, hx]
    rw [hget]
    exact Json.Same.refl_members _ key
  exact List.rel_of_pairwise_cons (h _ _ hrepair) List.mem_cons_self ⟨rfl, .some hsame⟩

end Tag

end MediaCatalog
