import MediaCatalog.Proofs.Decimal.Rounding
import MediaCatalog.Proofs.Json.Distinct
import MediaCatalog.Tag.Basic

/-!
# Round trips — a tag is written as it was read

Of an object with distinct keys a tag keeps every member. Writing the tag moves the three keys of
its own to the front and leaves the others in their order (`members_of_ofMembers?`). A tag that was
read is proper: nothing in it is settled further, so that what is written reads as the same tag
(`IsProper.ofJson?_toJson`).
-/

namespace MediaCatalog

/-- The double of a whole number is the one nearest to it. -/
theorem Number.isNearest_toDouble {n : ℤ} (h : n.natAbs < 2 ^ 64) :
    (Number.whole n).toDouble.IsNearest n := by
  obtain ⟨x, hx⟩ := Double.exists_ofNat? (n < 0) h
  have hnearest := Double.isNearest_of_nearest? Nat.one_pos hx
  have hsign : Double.sign (n < 0) * (n.natAbs : ℤ) = n := by
    unfold Double.sign
    split
    next hneg =>
      have := of_decide_eq_true hneg
      omega
    next hneg =>
      have := of_decide_eq_false (eq_false_of_ne_true hneg)
      omega
  have hn : (Double.sign (n < 0) * n.natAbs / (1 : ℕ) : ℚ) = n := by
    rw [Nat.cast_one, div_one, ← Int.cast_natCast, ← Int.cast_mul, hsign]
  rw [hn] at hnearest
  rw [Number.toDouble, hx, Option.getD_some]
  exact hnearest

namespace Tag

/-! ## 1. Reading -/

theorem nameOf?_eq_none_iff {v? : Option Json} :
    nameOf? v? = none ↔ ∃ v, v? = some v ∧ v ≠ .null ∧ ∀ s, v ≠ .string s := by
  unfold nameOf?
  split <;> simp_all

theorem accuracyOf?_eq_none_iff {v? : Option Json} :
    accuracyOf? v? = none ↔ ∃ v, v? = some v ∧ v ≠ .null ∧ ∀ n, v ≠ .number n := by
  unfold accuracyOf?
  split <;> simp_all

/-- The members without a meaning of their own. -/
def others (ms : Json.Members) : Json.Members :=
  ms.filter fun m => m.1 ∉ ownKeys

theorem nodup_filter {ms : Json.Members} (h : ms.keys.Nodup) (p : String × Json → Bool) :
    (Json.Members.keys (ms.filter p)).Nodup :=
  (List.filter_sublist.map Prod.fst).nodup h

/-- Each key is looked up on its own, in no order. -/
theorem ofMembers?_eq {ms : Json.Members} (h : ms.keys.Nodup) :
    ofMembers? ms = (nameOf? (ms.get? "name")).bind fun name? =>
      (accuracyOf? (ms.get? "accuracy")).map fun accuracy? =>
        ⟨name?, (ms.get? "provider").map Json.settle, accuracy?,
          (others ms).map Json.settleMember⟩ := by
  have hextra : Json.settleMembers [] (others ms) = (others ms).map Json.settleMember :=
    Json.settleMembers_eq [] (nodup_filter h _)
  unfold ofMembers?
  rw [Json.Members.once?_eq_get? h, Json.Members.once?_eq_get? h, Json.Members.once?_eq_get? h,
    ← hextra]
  simp only [Option.bind_eq_bind, Option.bind_some]
  cases nameOf? (ms.get? "name") with
  | none => rfl
  | some name? => cases accuracyOf? (ms.get? "accuracy") <;> rfl

/-! ## 2. Writing -/

/-- How a member is written: null names and null accuracies are dropped, and accuracies are
doubles. -/
def asWritten : String × Json → Option (String × Json)
  | ("name", .null) | ("accuracy", .null) => none
  | ("accuracy", .number n) => some ("accuracy", .number (.real n.toDouble))
  | (key, v) => some (key, v.settle)

/-- The members under the own keys come first, all others stay in their order. -/
def inOrder (ms : Json.Members) : Json.Members :=
  (ownKeys.flatMap fun key => ms.filter (·.1 == key)) ++ others ms

theorem members_eq (tag : Tag) :
    tag.members = .under "name" (tag.name?.map .string) ++ .under "provider" tag.provider? ++
      .under "accuracy" (tag.accuracy?.map fun x => .number (.real x)) ++ tag.extra := by
  rw [members, Json.Members.under, Json.Members.under, Json.Members.under, Option.map_map,
    Option.map_map]
  rfl

theorem asWritten_name {v? : Option Json} {name? : Option String} (h : nameOf? v? = some name?) :
    (Json.Members.under "name" v?).filterMap asWritten =
      Json.Members.under "name" (name?.map Json.string) := by
  unfold nameOf? at h
  split at h
  next => cases h; rfl
  next => cases h; rfl
  next => cases h; rfl
  next => cases h

theorem asWritten_provider (v? : Option Json) :
    (Json.Members.under "provider" v?).filterMap asWritten =
      Json.Members.under "provider" (v?.map Json.settle) := by
  cases v? with
  | none => rfl
  | some v => rfl

theorem asWritten_accuracy {v? : Option Json} {accuracy? : Option Double}
    (h : accuracyOf? v? = some accuracy?) :
    (Json.Members.under "accuracy" v?).filterMap asWritten =
      Json.Members.under "accuracy" (accuracy?.map fun x => .number (.real x)) := by
  unfold accuracyOf? at h
  split at h
  next => cases h; rfl
  next => cases h; rfl
  next => cases h; rfl
  next => cases h

theorem asWritten_others (ms : Json.Members) :
    (others ms).filterMap asWritten = (others ms).map Json.settleMember := by
  have hmember : ∀ m ∈ others ms, asWritten m = some (Json.settleMember m) := by
    intro m hm
    have hkey : m.1 ∉ ownKeys := by simpa using (List.mem_filter.mp hm).2
    unfold asWritten
    split <;> simp_all [ownKeys, Json.settleMember]
  rw [List.filterMap_congr hmember, List.filterMap_eq_map']

theorem members_of_ofMembers? {ms : Json.Members} {tag : Tag} (h : ms.keys.Nodup)
    (htag : ofMembers? ms = some tag) : tag.members = (inOrder ms).filterMap asWritten := by
  rw [ofMembers?_eq h] at htag
  obtain ⟨name?, hname, htag⟩ := Option.bind_eq_some_iff.mp htag
  obtain ⟨accuracy?, haccuracy, rfl⟩ := Option.map_eq_some_iff.mp htag
  have horder : inOrder ms = .under "name" (ms.get? "name") ++
      .under "provider" (ms.get? "provider") ++ .under "accuracy" (ms.get? "accuracy") ++
      others ms := by
    simp only [inOrder, ownKeys, List.flatMap_cons, List.flatMap_nil, List.append_assoc,
      List.nil_append, Json.Members.filter_eq_under h]
  rw [members_eq, horder, List.filterMap_append, List.filterMap_append, List.filterMap_append,
    asWritten_name hname, asWritten_provider, asWritten_accuracy haccuracy, asWritten_others]

/-! ## 3. Reading what was written -/

/-- Tags that hold values as they are after reading. -/
structure IsProper (tag : Tag) : Prop where
  provider : ∀ v, tag.provider? = some v → v.KeysDistinct
  keys : (Json.Members.keys tag.extra).Nodup
  values : ∀ m ∈ tag.extra, m.2.KeysDistinct
  notOwn : ∀ m ∈ tag.extra, m.1 ∉ ownKeys

theorem isProper_of_ofMembers? {ms : Json.Members} {tag : Tag} (h : ms.keys.Nodup)
    (htag : ofMembers? ms = some tag) : tag.IsProper := by
  rw [ofMembers?_eq h] at htag
  obtain ⟨name?, hname, htag⟩ := Option.bind_eq_some_iff.mp htag
  obtain ⟨accuracy?, haccuracy, rfl⟩ := Option.map_eq_some_iff.mp htag
  refine ⟨fun v hv => ?_, ?_, fun m hm => ?_, fun m hm => ?_⟩
  · obtain ⟨w, -, rfl⟩ := Option.map_eq_some_iff.mp hv
    exact Json.keysDistinct_settle w
  · have hkeys : Json.Members.keys ((others ms).map Json.settleMember) =
        Json.Members.keys (others ms) := by
      rw [Json.Members.keys, List.map_map]
      rfl
    rw [hkeys]
    exact nodup_filter h _
  · obtain ⟨m', -, rfl⟩ := List.mem_map.mp hm
    exact Json.keysDistinct_settle m'.2
  · obtain ⟨m', hm', rfl⟩ := List.mem_map.mp hm
    exact of_decide_eq_true (List.mem_filter.mp hm').2

theorem IsProper.nodup {tag : Tag} (h : tag.IsProper) : tag.members.keys.Nodup := by
  have hsublist : tag.members.keys.Sublist (ownKeys ++ Json.Members.keys tag.extra) := by
    rw [members_eq]
    simp only [Json.Members.keys, List.map_append]
    exact (((Json.Members.keys_under_sublist "name" _).append
      (Json.Members.keys_under_sublist "provider" _)).append
      (Json.Members.keys_under_sublist "accuracy" _)).append (List.Sublist.refl _)
  refine hsublist.nodup (List.nodup_append.mpr ⟨by decide, h.keys, ?_⟩)
  rintro key hown key' hkey rfl
  obtain ⟨m, hm, rfl⟩ := List.mem_map.mp hkey
  exact h.notOwn m hm hown

theorem others_under {key : String} (hkey : key ∈ ownKeys) (v? : Option Json) :
    others (.under key v?) = [] := by
  cases v? with
  | none => rfl
  | some v => exact List.filter_cons_of_neg (by simpa using hkey)

theorem IsProper.others_members {tag : Tag} (h : tag.IsProper) :
    others tag.members = tag.extra := by
  have hextra : others tag.extra = tag.extra :=
    List.filter_eq_self.mpr fun m hm => decide_eq_true (h.notOwn m hm)
  rw [members_eq, others, List.filter_append, List.filter_append, List.filter_append,
    ← others, ← others, ← others, ← others, others_under (by decide), others_under (by decide),
    others_under (by decide), hextra]
  rfl

theorem IsProper.settle_extra {tag : Tag} (h : tag.IsProper) :
    tag.extra.map Json.settleMember = tag.extra := by
  have hmember : ∀ m ∈ tag.extra, Json.settleMember m = m := fun m hm => by
    rw [Json.settleMember, (h.values m hm).settle_eq]
  rw [List.map_congr_left hmember, List.map_id']

theorem IsProper.settle_provider {tag : Tag} (h : tag.IsProper) :
    tag.provider?.map Json.settle = tag.provider? := by
  cases hprovider : tag.provider? with
  | none => rfl
  | some v => rw [Option.map_some, (h.provider v hprovider).settle_eq]

/-- Nothing of what is written changes when it is read. -/
theorem IsProper.ofJson?_toJson {tag : Tag} (h : tag.IsProper) : ofJson? tag.toJson = some tag := by
  have hextra (key : String) (hkey : key ∈ ownKeys) : Json.Members.get? key tag.extra = none := by
    refine Json.Members.get?_eq_none_iff.mpr fun hmem => ?_
    obtain ⟨m, hm, rfl⟩ := List.mem_map.mp hmem
    exact h.notOwn m hm hkey
  have hname : tag.members.get? "name" = tag.name?.map .string := by
    rw [members_eq]
    simp [Json.Members.get?_append, Json.Members.get?_under, hextra "name" (by decide)]
  have hprovider : tag.members.get? "provider" = tag.provider? := by
    rw [members_eq]
    simp [Json.Members.get?_append, Json.Members.get?_under, hextra "provider" (by decide)]
  have haccuracy : tag.members.get? "accuracy" = tag.accuracy?.map fun x => .number (.real x) := by
    rw [members_eq]
    simp [Json.Members.get?_append, Json.Members.get?_under, hextra "accuracy" (by decide)]
  have hnameOf : nameOf? (tag.name?.map .string) = some tag.name? := by
    cases tag.name? <;> rfl
  have haccuracyOf : accuracyOf? (tag.accuracy?.map fun x => .number (.real x)) =
      some tag.accuracy? := by
    cases tag.accuracy? <;> rfl
  rw [toJson, ofJson?, ofMembers?_eq h.nodup, hname, hprovider, haccuracy, h.others_members,
    h.settle_extra, h.settle_provider, hnameOf, haccuracyOf]
  rfl

/-- Tags of objects with distinct keys: which there are, how they are written, and that what is
written reads as the same tag. Accuracies that are whole numbers become the nearest double, and
values without repeated keys are not changed by settling. -/
theorem round_trip {ms : Json.Members} (h : ms.keys.Nodup) :
    (ofJson? (.object ms) = none ↔
      (∃ v, ms.get? "name" = some v ∧ v ≠ .null ∧ ∀ s, v ≠ .string s) ∨
        ∃ v, ms.get? "accuracy" = some v ∧ v ≠ .null ∧ ∀ n, v ≠ .number n) ∧
    (∀ tag, ofJson? (.object ms) = some tag →
      tag.toJson = .object ((inOrder ms).filterMap asWritten) ∧ ofJson? tag.toJson = some tag) ∧
    (∀ n : ℤ, n.natAbs < 2 ^ 64 → (Number.whole n).toDouble.IsNearest n) ∧
    ∀ v : Json, v.KeysDistinct → v.settle = v := by
  refine ⟨?_, fun tag htag => ?_, fun n => Number.isNearest_toDouble, fun v => ?_⟩
  · rw [ofJson?, ofMembers?_eq h, Option.bind_eq_none_iff, ← nameOf?_eq_none_iff,
      ← accuracyOf?_eq_none_iff]
    cases nameOf? (ms.get? "name") <;> simp
  · refine ⟨?_, (isProper_of_ofMembers? h htag).ofJson?_toJson⟩
    rw [toJson, members_of_ofMembers? h htag]
  · exact Json.KeysDistinct.settle_eq

/-- The null of the name is dropped, that of the provider is kept; the accuracy becomes `1.0`. -/
theorem round_trip_of_nulls :
    (Json.Members.keys [("style", .object [("hue", .null)]), ("accuracy", .ofNat 1),
      ("name", .null), ("provider", .null)]).Nodup ∧
    ∃ tag, ofJson? (.object [("style", .object [("hue", .null)]), ("accuracy", .ofNat 1),
        ("name", .null), ("provider", .null)]) = some tag ∧
      tag.toJson = .object [("provider", .null),
        ("accuracy", .number (.real ⟨false, 1023 * 2 ^ 52, by decide⟩)),
        ("style", .object [("hue", .null)])] ∧
      ofJson? tag.toJson = some tag := by
  let ms : Json.Members := [("style", .object [("hue", .null)]), ("accuracy", .ofNat 1),
    ("name", .null), ("provider", .null)]
  have hkeys : ms.keys.Nodup := by decide
  obtain ⟨-, hwritten, -⟩ := round_trip hkeys
  have hsome : (ofJson? (.object ms)).isSome = true := by decide +kernel
  have hmembers : (inOrder ms).filterMap asWritten = [("provider", .null),
      ("accuracy", .number (.real ⟨false, 1023 * 2 ^ 52, by decide⟩)),
      ("style", .object [("hue", .null)])] := by decide +kernel
  obtain ⟨tag, htag⟩ := Option.isSome_iff_exists.mp hsome
  obtain ⟨hjson, hread⟩ := hwritten tag htag
  rw [hmembers] at hjson
  exact ⟨hkeys, tag, htag, hjson, hread⟩

end Tag

end MediaCatalog
