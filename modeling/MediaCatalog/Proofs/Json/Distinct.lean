import Mathlib.Data.List.Nodup
import MediaCatalog.Json.Basic

/-!
# Distinct keys — values whose objects have no key twice

Reading settles objects: a repeated key keeps its first place and its last value. What comes out
has distinct keys at every depth (`keysDistinct_settle`), and what has them already stays as it is
(`KeysDistinct.settle_eq`).
-/

namespace MediaCatalog.Json

/-- No object in a value has two members under one key. -/
inductive KeysDistinct : Json → Prop where
  | null : KeysDistinct .null
  | bool (b : Bool) : KeysDistinct (.bool b)
  | number (n : Number) : KeysDistinct (.number n)
  | string (s : String) : KeysDistinct (.string s)
  | array {vs : List Json} (items : ∀ v ∈ vs, KeysDistinct v) : KeysDistinct (.array vs)
  | object {ms : Members} (keys : ms.keys.Nodup) (values : ∀ m ∈ ms, KeysDistinct m.2) :
    KeysDistinct (.object ms)

/-! ## 1. Members with distinct keys -/

namespace Members

theorem get?_eq_none_iff {key : String} {ms : Members} : ms.get? key = none ↔ key ∉ ms.keys := by
  induction ms with
  | nil => simp [get?, keys]
  | cons m rest ih =>
    rw [get?, keys, List.map_cons, List.mem_cons, not_or]
    split
    next h => simp [h]
    next h => exact ih.trans (iff_and_self.mpr fun _ => Ne.symm h)

theorem get?_append (key : String) (ms ns : Members) :
    get? key (ms ++ ns) = (get? key ms).or (get? key ns) := by
  induction ms with
  | nil => rfl
  | cons m rest ih =>
    rw [List.cons_append, get?, get?, ih]
    split
    next => rfl
    next => rfl

/-- The member with a key and a value, none without a value. -/
def under (key : String) (v? : Option Json) : Members :=
  (v?.map fun v => (key, v)).toList

theorem get?_under (key key' : String) (v? : Option Json) :
    (under key v?).get? key' = if key = key' then v? else none := by
  cases v? with
  | none => exact (ite_self none).symm
  | some v => rfl

theorem keys_under_sublist (key : String) (v? : Option Json) :
    (under key v?).keys.Sublist [key] := by
  cases v? with
  | none => exact List.nil_sublist _
  | some v => exact List.Sublist.refl _

/-- The members under a key are the one that is found there. -/
theorem filter_eq_under {ms : Members} (h : ms.keys.Nodup) (key : String) :
    ms.filter (·.1 == key) = under key (ms.get? key) := by
  induction ms with
  | nil => rfl
  | cons m rest ih =>
    obtain ⟨hm, hrest⟩ := List.nodup_cons.mp h
    rw [get?, List.filter_cons, ih hrest]
    split
    next hkey =>
      have hkey' : m.1 = key := by simpa using hkey
      have hnone : get? key rest = none := get?_eq_none_iff.mpr (hkey' ▸ hm)
      rw [if_pos hkey', hnone, ← hkey']
      rfl
    next hkey =>
      rw [if_neg (by simpa using hkey)]

theorem once?_eq_get? {ms : Members} (h : ms.keys.Nodup) (key : String) :
    ms.once? key = some (ms.get? key) := by
  unfold once?
  rw [filter_eq_under h]
  cases ms.get? key with
  | none => rfl
  | some v => rfl

theorem put_of_notMem {key : String} {v : Json} {ms : Members} (h : key ∉ ms.keys) :
    ms.put key v = ms ++ [(key, v)] := by
  induction ms with
  | nil => rfl
  | cons m rest ih =>
    rw [keys, List.map_cons, List.mem_cons, not_or] at h
    rw [put, if_neg (Ne.symm h.1), ih h.2, List.cons_append]

theorem keys_put (key : String) (v : Json) (ms : Members) :
    (ms.put key v).keys = if key ∈ ms.keys then ms.keys else ms.keys ++ [key] := by
  induction ms with
  | nil => rfl
  | cons m rest ih =>
    rw [put]
    split
    next h =>
      rw [if_pos (by rw [keys, List.map_cons, h]; exact List.mem_cons_self), keys, List.map_cons,
        keys, List.map_cons, h]
    next h =>
      have hkeys : keys (m :: rest) = m.1 :: keys rest := rfl
      have hmem : key ∈ keys (m :: rest) ↔ key ∈ keys rest := by
        rw [hkeys, List.mem_cons, or_iff_right (Ne.symm h)]
      have hput : keys ((m.1, m.2) :: put key v rest) = m.1 :: keys (put key v rest) := rfl
      simp only [hmem]
      rw [hput, ih, hkeys]
      split
      next => rfl
      next => rfl

theorem nodup_put {key : String} {v : Json} {ms : Members} (h : ms.keys.Nodup) :
    (ms.put key v).keys.Nodup := by
  rw [keys_put]
  split
  next => exact h
  next hkey =>
    refine List.nodup_append.mpr ⟨h, List.nodup_singleton key, ?_⟩
    rintro a ha b hb rfl
    rw [List.mem_singleton] at hb
    exact hkey (hb ▸ ha)

theorem mem_put {key : String} {v : Json} {ms : Members} {m : String × Json}
    (h : m ∈ ms.put key v) : m ∈ ms ∨ m = (key, v) := by
  induction ms with
  | nil => exact Or.inr (List.mem_singleton.mp h)
  | cons m' rest ih =>
    rw [put] at h
    split at h
    next hkey =>
      obtain rfl | h := List.mem_cons.mp h
      · exact Or.inr (by rw [hkey])
      · exact Or.inl (List.mem_cons_of_mem _ h)
    next =>
      obtain rfl | h := List.mem_cons.mp h
      · exact Or.inl List.mem_cons_self
      · exact (ih h).imp_left (List.mem_cons_of_mem _)

end Members

/-! ## 2. Settling -/

theorem settleItems_eq_map (vs : List Json) : settleItems vs = vs.map settle := by
  induction vs with
  | nil => rfl
  | cons v rest ih => rw [settleItems, ih, List.map_cons]

/-- A member with its value settled. -/
def settleMember (m : String × Json) : String × Json :=
  (m.1, m.2.settle)

theorem settleMembers_eq (done : Members) {ms : Members}
    (h : (Members.keys (done ++ ms)).Nodup) :
    settleMembers done ms = done ++ ms.map settleMember := by
  induction ms generalizing done with
  | nil => rw [settleMembers, List.map_nil, List.append_nil]
  | cons m rest ih =>
    have hsplit : Members.keys (done ++ m :: rest) =
        Members.keys done ++ m.1 :: Members.keys rest := by
      rw [Members.keys, List.map_append, List.map_cons]
      rfl
    have hkey : m.1 ∉ Members.keys done := by
      rw [hsplit] at h
      exact fun hmem => (List.nodup_append.mp h).2.2 _ hmem _ List.mem_cons_self rfl
    have hkeys : Members.keys (done ++ [(m.1, m.2.settle)] ++ rest) =
        Members.keys (done ++ m :: rest) := by
      simp [Members.keys]
    rw [settleMembers, Members.put_of_notMem hkey, ih _ (hkeys ▸ h)]
    simp [settleMember]

theorem KeysDistinct.settle_eq {v : Json} (h : v.KeysDistinct) : v.settle = v := by
  induction h with
  | null | bool | number | string => rfl
  | @array vs _ ih =>
    rw [settle, settleItems_eq_map, List.map_congr_left ih, List.map_id']
  | @object ms keys _ ih =>
    have hmembers : ms.map settleMember = ms := by
      have hmember : ∀ m ∈ ms, settleMember m = m := fun m hm => by rw [settleMember, ih m hm]
      rw [List.map_congr_left hmember, List.map_id']
    rw [settle, settleMembers_eq [] keys, hmembers, List.nil_append]

mutual

theorem keysDistinct_settle (v : Json) : v.settle.KeysDistinct := by
  match v with
  | .null => exact .null
  | .bool b => exact .bool b
  | .number n => exact .number n
  | .string s => exact .string s
  | .array vs =>
    rw [settle]
    exact .array (keysDistinct_settleItems vs)
  | .object ms =>
    have hms := keysDistinct_settleMembers [] ms List.nodup_nil (by simp)
    rw [settle]
    exact .object hms.1 hms.2

theorem keysDistinct_settleItems (vs : List Json) : ∀ v ∈ settleItems vs, v.KeysDistinct := by
  match vs with
  | [] => simp [settleItems]
  | v :: rest =>
    rw [settleItems, List.forall_mem_cons]
    exact ⟨keysDistinct_settle v, keysDistinct_settleItems rest⟩

theorem keysDistinct_settleMembers (done ms : Members) (hkeys : done.keys.Nodup)
    (hvalues : ∀ m ∈ done, m.2.KeysDistinct) : (settleMembers done ms).keys.Nodup ∧
      ∀ m ∈ settleMembers done ms, m.2.KeysDistinct := by
  match ms with
  | [] => exact ⟨hkeys, hvalues⟩
  | (k, v) :: rest =>
    rw [settleMembers]
    refine keysDistinct_settleMembers _ rest (Members.nodup_put hkeys) fun m hm => ?_
    obtain hm | rfl := Members.mem_put hm
    · exact hvalues m hm
    · exact keysDistinct_settle v

end

end MediaCatalog.Json
