import Mathlib.Data.List.Basic
import Mathlib.Data.List.Forall2
import Mathlib.Data.List.Infix
import MediaCatalog.Tag.Repair

/-!
# Repair — which tags are kept, and which name stops the repair

A repair first replaces the names by what they decode to (`Decoded`), which fails at the first name
that does not decode (`IsUndecodable`). Of the tags that are then alike in their keys it keeps the
first (`firstOfEach`).
-/

namespace MediaCatalog.Tag

/-! ## 1. Decoding the names -/

/-- A tag with its name decoded; nothing else changes. -/
inductive Decoded (tag : Tag) : (decoded : Tag) → Prop where
  | nameless (h : tag.name? = none) : Decoded tag tag
  | named {name name' : String} (h : tag.name? = some name)
      (hname : Escape.decode name = .ok name') : Decoded tag { tag with name? := some name' }

/-- The tag has a name that cannot be decoded, for a reason. -/
def IsUndecodable (tag : Tag) (u : Undecodable) : Prop :=
  tag.name? = some u.name ∧ Escape.decode u.name = .error u.fault

theorem decodeName_eq_ok_iff {tag decoded : Tag} :
    tag.decodeName = .ok decoded ↔ tag.Decoded decoded := by
  constructor
  · intro h
    unfold decodeName at h
    split at h
    next hname =>
      rw [Except.ok.injEq] at h
      exact h ▸ .nameless hname
    next name hname =>
      split at h
      next name' hdecode =>
        rw [Except.ok.injEq] at h
        exact h ▸ .named hname hdecode
      next => cases h
  · intro h
    cases h with
    | nameless h => rw [decodeName, h]
    | named h hname =>
      unfold decodeName
      simp only [h, hname]

theorem decodeName_eq_error_iff {tag : Tag} {u : Undecodable} :
    tag.decodeName = .error u ↔ tag.IsUndecodable u := by
  constructor
  · intro h
    unfold decodeName at h
    split at h
    next => cases h
    next name hname =>
      split at h
      next => cases h
      next fault hdecode =>
        rw [Except.error.injEq] at h
        exact h ▸ ⟨hname, hdecode⟩
  · rintro ⟨hname, hdecode⟩
    unfold decodeName
    simp only [hname, hdecode]

theorem decodeNames_eq_ok_iff {tags decoded : List Tag} :
    decodeNames tags = .ok decoded ↔ List.Forall₂ Decoded tags decoded := by
  induction tags generalizing decoded with
  | nil => simp [decodeNames, eq_comm]
  | cons tag rest ih =>
    rw [decodeNames]
    constructor
    · intro h
      split at h
      next => cases h
      next tag' htag =>
        split at h
        next => cases h
        next rest' hrest =>
          rw [Except.ok.injEq] at h
          exact h ▸ .cons (decodeName_eq_ok_iff.mp htag) (ih.mp hrest)
    · intro h
      cases h with
      | cons htag hrest => rw [decodeName_eq_ok_iff.mpr htag, ih.mpr hrest]

/-- The fault is that of the first name that cannot be decoded. -/
theorem decodeNames_eq_error_iff {tags : List Tag} {u : Undecodable} :
    decodeNames tags = .error u ↔ ∃ front tag rest, tags = front ++ tag :: rest ∧
      (∀ t ∈ front, ∃ t', t.Decoded t') ∧ tag.IsUndecodable u := by
  induction tags with
  | nil => simp [decodeNames]
  | cons tag rest ih =>
    rw [decodeNames]
    constructor
    · intro h
      split at h
      next u' htag =>
        rw [Except.error.injEq] at h
        exact ⟨[], tag, rest, rfl, by simp, decodeName_eq_error_iff.mp (h ▸ htag)⟩
      next tag' htag =>
        split at h
        next u' hrest =>
          obtain ⟨front, t, back, rfl, hfront, ht⟩ := ih.mp (hrest.trans h)
          have htag' := decodeName_eq_ok_iff.mp htag
          exact ⟨tag :: front, t, back, rfl, List.forall_mem_cons.mpr ⟨⟨tag', htag'⟩, hfront⟩, ht⟩
        next => cases h
    · rintro ⟨front, t, back, hsplit, hfront, ht⟩
      cases front with
      | nil =>
        obtain ⟨rfl, rfl⟩ := List.cons.inj hsplit
        rw [decodeName_eq_error_iff.mpr ht]
      | cons first front =>
        obtain ⟨rfl, rfl⟩ := List.cons.inj hsplit
        obtain ⟨⟨tag', htag⟩, hfront⟩ := List.forall_mem_cons.mp hfront
        rw [decodeName_eq_ok_iff.mpr htag, ih.mpr ⟨front, t, back, rfl, hfront, ht⟩]

theorem Decoded.unique {tag t t' : Tag} (h : tag.Decoded t) (h' : tag.Decoded t') : t = t' := by
  rw [← decodeName_eq_ok_iff] at h h'
  exact Except.ok.inj (h.symm.trans h')

theorem forall₂_decoded_unique {tags decoded decoded' : List Tag}
    (h : List.Forall₂ Decoded tags decoded) (h' : List.Forall₂ Decoded tags decoded') :
    decoded = decoded' := by
  rw [← decodeNames_eq_ok_iff] at h h'
  exact Except.ok.inj (h.symm.trans h')

theorem Decoded.eq {tag decoded : Tag} (h : tag.Decoded decoded) :
    decoded = { tag with name? := decoded.name? } := by
  cases h <;> rfl

theorem IsUndecodable.not_decoded {tag : Tag} {u : Undecodable} (h : tag.IsUndecodable u)
    (decoded : Tag) : ¬tag.Decoded decoded := by
  intro hdecoded
  rw [← decodeName_eq_ok_iff, decodeName_eq_error_iff.mpr h] at hdecoded
  cases hdecoded

/-! ## 2. The first tag of each key -/

/-- The tags whose key no earlier tag has. -/
def firstOfEach {κ : Type} [DecidableEq κ] (key : Tag → κ) (tags : List Tag) : List Tag :=
  ((tags.zip tags.inits).filter fun p => key p.1 ∉ p.2.map key).map Prod.fst

theorem firstOfEach_congr {κ κ' : Type} [DecidableEq κ] [DecidableEq κ'] {key : Tag → κ}
    {key' : Tag → κ'} (h : ∀ t u, key t = key u ↔ key' t = key' u) (tags : List Tag) :
    firstOfEach key tags = firstOfEach key' tags := by
  refine congrArg (List.map Prod.fst) (List.filter_congr fun p _ => decide_eq_decide.mpr ?_)
  simp only [List.mem_map, h]

/-- What has been seen are the keys of the tags before, and those seen at the start. -/
theorem keepFirst_eq (seen : List (Option String × Option String)) (tags : List Tag) :
    keepFirst seen tags =
      ((tags.zip tags.inits).filter fun p =>
        p.1.key ∉ seen ∧ p.1.key ∉ p.2.map key).map Prod.fst := by
  induction tags generalizing seen with
  | nil => rfl
  | cons tag rest ih =>
    have hrest : List.zip (tag :: rest) (tag :: rest).inits =
        (tag, []) :: (rest.zip rest.inits).map (fun p => (p.1, tag :: p.2)) := by
      rw [List.inits_cons, List.zip_cons_cons, List.zip_map_right]
      rfl
    rw [hrest, List.filter_cons, List.filter_map, keepFirst]
    by_cases hseen : tag.key ∈ seen
    · -- The key is among those seen already, so that it need not be looked for before a tag.
      have hkey (k : Option String × Option String) (before : List Tag) :
          (k ∉ seen ∧ k ∉ (tag :: before).map key) ↔ (k ∉ seen ∧ k ∉ before.map key) := by
        rw [List.map_cons, List.mem_cons, not_or]
        exact and_congr_right fun hk => and_iff_right fun heq => hk (heq ▸ hseen)
      rw [if_pos hseen, if_neg (by simp [hseen]), ih, List.map_map]
      simp only [Function.comp_def, hkey]
    · have hkey (k : Option String × Option String) (before : List Tag) :
          (k ∉ seen ∧ k ∉ (tag :: before).map key) ↔
            (k ∉ tag.key :: seen ∧ k ∉ before.map key) := by
        rw [List.map_cons, List.mem_cons, List.mem_cons, not_or, not_or]
        tauto
      rw [if_neg hseen, if_pos (by simp [hseen]), List.map_cons, ih, List.map_map]
      simp only [Function.comp_def, hkey]

theorem keepFirst_nil (tags : List Tag) : keepFirst [] tags = firstOfEach key tags := by
  rw [keepFirst_eq]
  refine congrArg (List.map Prod.fst) (List.filter_congr fun p _ => decide_eq_decide.mpr ?_)
  exact and_iff_right List.not_mem_nil

theorem keepFirst_sublist (seen : List (Option String × Option String)) (tags : List Tag) :
    (keepFirst seen tags).Sublist tags := by
  induction tags generalizing seen with
  | nil => exact .slnil
  | cons tag rest ih =>
    rw [keepFirst]
    split
    · exact .cons tag (ih seen)
    · exact .cons_cons tag (ih _)

/-- A kept tag stands where its key has not been seen and no tag before has it. -/
theorem exists_split_of_mem_keepFirst {seen : List (Option String × Option String)}
    {tags : List Tag} {t : Tag} (h : t ∈ keepFirst seen tags) :
    ∃ front rest, tags = front ++ t :: rest ∧ t.key ∉ seen ∧ t.key ∉ front.map key := by
  induction tags generalizing seen with
  | nil => cases h
  | cons tag rest ih =>
    rw [keepFirst] at h
    split at h
    next hseen =>
      obtain ⟨front, back, rfl, hnot, hfront⟩ := ih h
      refine ⟨tag :: front, back, rfl, hnot, ?_⟩
      rw [List.map_cons, List.mem_cons, not_or]
      exact ⟨fun heq => hnot (heq ▸ hseen), hfront⟩
    next hseen =>
      rcases List.mem_cons.mp h with rfl | hrest
      · exact ⟨[], rest, rfl, hseen, List.not_mem_nil⟩
      · obtain ⟨front, back, rfl, hnot, hfront⟩ := ih hrest
        rw [List.mem_cons, not_or] at hnot
        refine ⟨tag :: front, back, rfl, hnot.2, ?_⟩
        rw [List.map_cons, List.mem_cons, not_or]
        exact ⟨hnot.1, hfront⟩

theorem nodup_keepFirst (seen : List (Option String × Option String)) (tags : List Tag) :
    ((keepFirst seen tags).map key).Nodup := by
  induction tags generalizing seen with
  | nil => exact .nil
  | cons tag rest ih =>
    rw [keepFirst]
    split
    · exact ih seen
    · rw [List.map_cons, List.nodup_cons]
      refine ⟨fun hmem => ?_, ih _⟩
      obtain ⟨t, ht, hkey⟩ := List.mem_map.mp hmem
      obtain ⟨_, _, _, hseen, _⟩ := exists_split_of_mem_keepFirst ht
      exact hseen (hkey ▸ List.mem_cons_self)

theorem key_mem_keepFirst {seen : List (Option String × Option String)} {tags : List Tag} {t : Tag}
    (ht : t ∈ tags) (hseen : t.key ∉ seen) : t.key ∈ (keepFirst seen tags).map key := by
  induction tags generalizing seen with
  | nil => cases ht
  | cons tag rest ih =>
    rw [keepFirst]
    rcases List.mem_cons.mp ht with rfl | hrest
    · rw [if_neg hseen]
      exact List.mem_map_of_mem List.mem_cons_self
    · by_cases htag : tag.key ∈ seen
      · rw [if_pos htag]
        exact ih hrest hseen
      · rw [if_neg htag, List.map_cons]
        by_cases hkey : t.key = tag.key
        · exact hkey ▸ List.mem_cons_self
        · refine List.mem_cons_of_mem _ (ih hrest ?_)
          rw [List.mem_cons, not_or]
          exact ⟨hkey, hseen⟩

/-! ## 3. The repair -/

theorem exists_decoded_of_mem {tags decoded : List Tag} (h : List.Forall₂ Decoded tags decoded)
    {t : Tag} (ht : t ∈ tags) : ∃ t' ∈ decoded, t.Decoded t' := by
  induction h with
  | nil => cases ht
  | @cons tag tag' rest rest' htag _ ih =>
    rcases List.mem_cons.mp ht with rfl | hrest
    · exact ⟨tag', List.mem_cons_self, htag⟩
    · obtain ⟨t', ht', hdecoded⟩ := ih hrest
      exact ⟨t', List.mem_cons_of_mem _ ht', hdecoded⟩

theorem repair_eq_ok_iff {tags result : List Tag} :
    repair tags = .ok result ↔
      ∃ decoded, List.Forall₂ Decoded tags decoded ∧ result = keepFirst [] decoded := by
  rw [repair]
  constructor
  · intro h
    split at h
    next decoded hdecoded =>
      rw [Except.ok.injEq] at h
      exact ⟨decoded, decodeNames_eq_ok_iff.mp hdecoded, h.symm⟩
    next => cases h
  · rintro ⟨decoded, hdecoded, rfl⟩
    rw [decodeNames_eq_ok_iff.mpr hdecoded]

theorem repair_eq_error_iff {tags : List Tag} {u : Undecodable} :
    repair tags = .error u ↔ decodeNames tags = .error u := by
  rw [repair]
  cases decodeNames tags with
  | ok decoded => simp
  | error u' => simp

theorem exists_repair_error_iff {tags : List Tag} :
    (∃ u, repair tags = .error u) ↔ ∃ tag ∈ tags, ∃ u, tag.IsUndecodable u := by
  constructor
  · rintro ⟨u, h⟩
    obtain ⟨front, tag, rest, rfl, -, htag⟩ :=
      decodeNames_eq_error_iff.mp (repair_eq_error_iff.mp h)
    exact ⟨tag, by simp, u, htag⟩
  · rintro ⟨tag, hmem, u, htag⟩
    cases hrepair : repair tags with
    | error u' => exact ⟨u', rfl⟩
    | ok result =>
      obtain ⟨decoded, hdecoded, -⟩ := repair_eq_ok_iff.mp hrepair
      obtain ⟨t', -, ht'⟩ := exists_decoded_of_mem hdecoded hmem
      exact absurd ht' (htag.not_decoded t')

end MediaCatalog.Tag
