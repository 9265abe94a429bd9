import MediaCatalog.Proofs.Json.Distinct
import MediaCatalog.Proofs.Json.Skip

/-!
# Reading — what is written is read back

Values without numbers are read back from their compact text (`Reader.value_compact`), whatever
their strings hold. Of an object that is read for some keys only the members under these keys have
to be of that kind; the others are passed over (`readFor?_text`).
-/

namespace MediaCatalog.Json

/-! ## 1. Values without numbers -/

/-- Values without numbers, with no more than so many containers in one another. -/
inductive NumberFree : (depth : Nat) → Json → Prop where
  | null (depth : Nat) : NumberFree depth .null
  | bool (depth : Nat) (b : Bool) : NumberFree depth (.bool b)
  | string (depth : Nat) (s : String) : NumberFree depth (.string s)
  | array {depth : Nat} {vs : List Json} (items : ∀ v ∈ vs, NumberFree depth v) :
    NumberFree (depth + 1) (.array vs)
  | object {depth : Nat} {ms : Members} (values : ∀ m ∈ ms, NumberFree depth m.2) :
    NumberFree (depth + 1) (.object ms)

namespace Reader

theorem colon_cons (rest : List Char) : colon (':' :: rest) = .ok rest :=
  rfl

theorem items_cons {first : Bool} {v : Json} {vs : List Json} {fuel depth : Nat}
    {middle rest : List Char} (hv : value fuel depth (v.compact ++ middle) = .ok (v, middle))
    (hvs : items fuel depth false middle = .ok (vs, rest)) :
    items (fuel + 1) depth first (separator first ++ (v.compact ++ middle)) =
      .ok (v :: vs, rest) := by
  rw [items, skipSpace_item]
  split
  next heq =>
    have := v.compact_pos
    simp_all
  next heq => exact absurd heq (item_ne first v _ _)
  next heq =>
    rw [← heq, itemStart_eq]
    dsimp only
    rw [hv]
    dsimp only
    rw [hvs]

theorem members_cons {first : Bool} {k : String} {v : Json} {ms : Members} {fuel depth : Nat}
    {middle rest : List Char} (hv : value fuel depth (v.compact ++ middle) = .ok (v, middle))
    (hms : members fuel depth false middle = .ok (ms, rest)) :
    members (fuel + 1) depth first
        (separator first ++ (quote k ++ ':' :: (v.compact ++ middle))) =
      .ok ((k, v) :: ms, rest) := by
  rw [members, skipSpace_member]
  split
  next heq => cases first <;> cases heq
  next heq => exact absurd heq (member_ne first k _ _)
  next heq =>
    rw [← heq, keyStart_eq]
    dsimp only
    rw [stringText_escaped]
    dsimp only
    rw [colon_cons]
    dsimp only
    rw [hv]
    dsimp only
    rw [hms]

theorem value_array {fuel depth : Nat} {vs : List Json} {text rest : List Char}
    (h : items fuel depth true text = .ok (vs, rest)) :
    value (fuel + 1) (depth + 1) ('[' :: text) = .ok (.array vs, rest) := by
  have hspace : skipSpace ('[' :: text) = '[' :: text := rfl
  simp [value, hspace, h]

theorem value_object {fuel depth : Nat} {ms : Members} {text rest : List Char}
    (h : members fuel depth true text = .ok (ms, rest)) :
    value (fuel + 1) (depth + 1) ('\x7b' :: text) = .ok (.object ms, rest) := by
  have hspace : skipSpace ('\x7b' :: text) = '\x7b' :: text := rfl
  simp [value, hspace, h]

theorem value_string {fuel depth : Nat} {s : String} {text rest : List Char}
    (h : stringText text = .ok (s, rest)) :
    value (fuel + 1) depth ('"' :: text) = .ok (.string s, rest) := by
  have hspace : skipSpace ('"' :: text) = '"' :: text := rfl
  simp [value, hspace, h]

mutual

theorem value_compact {v : Json} {fuel depth : Nat} (h : NumberFree depth v)
    (hfuel : v.compact.length ≤ fuel) (rest : List Char) :
    value fuel depth (v.compact ++ rest) = .ok (v, rest) := by
  obtain ⟨fuel, rfl⟩ := Nat.exists_eq_add_one.mpr (Nat.lt_of_lt_of_le v.compact_pos hfuel)
  match v, h with
  | .null, _ => rfl
  | .bool true, _ => rfl
  | .bool false, _ => rfl
  | .string s, _ =>
    rw [compact, quote_append]
    exact value_string (stringText_escaped s rest)
  | .array [], .array _ =>
    obtain ⟨fuel, rfl⟩ : ∃ k, fuel = k + 1 := ⟨fuel - 1, by simp [compact] at hfuel; omega⟩
    rfl
  | .array (v :: vs), .array hitems =>
    rw [List.forall_mem_cons] at hitems
    have hv := v.compact_pos
    have hend := compactItems_pos vs
    simp only [compact, List.length_cons, List.length_append] at hfuel
    obtain ⟨fuel, rfl⟩ : ∃ k, fuel = k + 1 := ⟨fuel - 1, by omega⟩
    rw [compact_array_append]
    exact value_array (items_cons (value_compact hitems.1 (by omega) _)
      (items_compact hitems.2 (by omega) rest))
  | .object [], .object _ =>
    obtain ⟨fuel, rfl⟩ : ∃ k, fuel = k + 1 := ⟨fuel - 1, by simp [compact] at hfuel; omega⟩
    rfl
  | .object ((k, v) :: ms), .object hvalues =>
    rw [List.forall_mem_cons] at hvalues
    have hv : NumberFree _ v := hvalues.1
    simp only [compact, List.length_cons, List.length_append] at hfuel
    obtain ⟨fuel, rfl⟩ : ∃ k, fuel = k + 1 := ⟨fuel - 1, by omega⟩
    rw [compact_object_append]
    exact value_object (members_cons (value_compact hv (by omega) _)
      (members_compact hvalues.2 (by omega) rest))

theorem items_compact {vs : List Json} {fuel depth : Nat} (h : ∀ v ∈ vs, NumberFree depth v)
    (hfuel : (compactItems vs).length ≤ fuel) (rest : List Char) :
    items fuel depth false (compactItems vs ++ rest) = .ok (vs, rest) := by
  obtain ⟨fuel, rfl⟩ := Nat.exists_eq_add_one.mpr (Nat.lt_of_lt_of_le (compactItems_pos vs) hfuel)
  match vs with
  | [] => rfl
  | v :: vs =>
    rw [List.forall_mem_cons] at h
    simp only [compactItems, List.length_cons, List.length_append] at hfuel
    rw [compactItems_append]
    exact items_cons (value_compact h.1 (by omega) _) (items_compact h.2 (by omega) rest)

theorem members_compact {ms : Members} {fuel depth : Nat} (h : ∀ m ∈ ms, NumberFree depth m.2)
    (hfuel : (compactMembers ms).length ≤ fuel) (rest : List Char) :
    members fuel depth false (compactMembers ms ++ rest) = .ok (ms, rest) := by
  obtain ⟨fuel, rfl⟩ := Nat.exists_eq_add_one.mpr (Nat.lt_of_lt_of_le (compactMembers_pos ms) hfuel)
  match ms with
  | [] => rfl
  | (k, v) :: ms =>
    rw [List.forall_mem_cons] at h
    have hv : NumberFree depth v := h.1
    simp only [compactMembers, List.length_cons, List.length_append] at hfuel
    rw [compactMembers_append]
    exact members_cons (value_compact hv (by omega) _) (members_compact h.2 (by omega) rest)

end

end Reader

theorem readPrefix_compact {v : Json} (h : NumberFree Reader.depthLimit v) (rest : List Char) :
    readPrefix (v.compact ++ rest) = .ok (v, rest) := by
  refine Reader.value_compact h ?_ rest
  rw [List.length_append]
  omega

/-- Without numbers a value is read back from its text, up to repeated keys. -/
theorem parse?_text {v : Json} (h : NumberFree Reader.depthLimit v) :
    parse? v.text = some v.settle := by
  have hread := readPrefix_compact h []
  rw [List.append_nil] at hread
  rw [parse?, text, String.toList_ofList, read, hread]
  rfl

/-! ## 2. Reading for some keys -/

/-- The members under some keys. -/
def Members.only (keys : List String) (ms : Members) : Members :=
  ms.filter (·.1 ∈ keys)

theorem chosenMember?_escaped {keys : List String} {k : String} {v : Json}
    (h : k ∈ keys → NumberFree Reader.depthLimit v) {rest : List Char} (hrest : Delimited rest) :
    chosenMember? keys (k.toList.flatMap escapeChar ++ '"' :: ':' :: (v.compact ++ rest)) =
      some (Members.only keys [(k, v)], rest) := by
  unfold chosenMember? Members.only
  rw [Reader.stringText_escaped]
  simp only [Except.toOption, Option.bind_eq_bind, Option.bind_some, Reader.colon_cons]
  split
  next hk =>
    rw [readPrefix_compact (h hk)]
    simp [hk]
  next hk =>
    rw [skip?_compact v hrest]
    simp [hk]

theorem chosenMembers?_cons {keys : List String} {first : Bool} {k : String} {v : Json}
    {ms : Members} {fuel : Nat} {middle rest : List Char}
    (h : k ∈ keys → NumberFree Reader.depthLimit v) (hmiddle : Delimited middle)
    (hms : chosenMembers? keys fuel false middle = some (Members.only keys ms, rest)) :
    chosenMembers? keys (fuel + 1) first
        (separator first ++ (quote k ++ ':' :: (v.compact ++ middle))) =
      some (Members.only keys ((k, v) :: ms), rest) := by
  have hsplit : Members.only keys ((k, v) :: ms) =
      Members.only keys [(k, v)] ++ Members.only keys ms :=
    List.filter_append [(k, v)] ms
  rw [chosenMembers?, skipSpace_member]
  split
  next heq => exact absurd heq (member_ne first k _ _)
  next =>
    rw [keyStart_eq]
    simp only [Except.toOption, Option.bind_eq_bind, Option.bind_some]
    rw [chosenMember?_escaped h hmiddle, Option.bind_some, hms, Option.bind_some, hsplit]
    rfl

theorem chosenMembers?_compact {keys : List String} {ms : Members} {fuel : Nat}
    (h : ∀ m ∈ ms, m.1 ∈ keys → NumberFree Reader.depthLimit m.2)
    (hfuel : (compactMembers ms).length ≤ fuel) (rest : List Char) :
    chosenMembers? keys fuel false (compactMembers ms ++ rest) =
      some (ms.only keys, rest) := by
  induction ms generalizing fuel with
  | nil =>
    obtain ⟨fuel, rfl⟩ := Nat.exists_eq_add_one.mpr hfuel
    rfl
  | cons m ms ih =>
    obtain ⟨fuel, rfl⟩ := Nat.exists_eq_add_one.mpr (Nat.lt_of_lt_of_le (Nat.succ_pos _) hfuel)
    rw [List.forall_mem_cons] at h
    simp only [compactMembers, List.length_cons, List.length_append] at hfuel
    rw [compactMembers_append]
    exact chosenMembers?_cons h.1 (delimited_members ms rest) (ih h.2 (by omega))

/-- Of an object the members under the keys are read, and all others passed over. -/
theorem readFor?_text {keys : List String} {ms : Members}
    (h : ∀ m ∈ ms, m.1 ∈ keys → NumberFree Reader.depthLimit m.2) :
    readFor? keys (Json.object ms).text.toList = some (.object (ms.only keys)) := by
  rw [text, String.toList_ofList, ← List.append_nil (compact _)]
  match ms with
  | [] => rfl
  | (k, v) :: ms =>
    rw [List.forall_mem_cons] at h
    rw [compact_object_append]
    generalize htail : separator true ++
      (quote k ++ ':' :: (v.compact ++ (compactMembers ms ++ []))) = tail
    have hfuel : (compactMembers ms).length ≤ tail.length := by
      simp only [← htail, List.length_append, List.length_cons]
      omega
    have hchosen : chosenMembers? keys (tail.length + 1) true tail =
        some (Members.only keys ((k, v) :: ms), []) := by
      generalize tail.length = fuel at hfuel
      rw [← htail]
      exact chosenMembers?_cons h.1 (delimited_members ms []) (chosenMembers?_compact h.2 hfuel [])
    have hspace : Reader.skipSpace ('\x7b' :: tail) = '\x7b' :: tail := rfl
    rw [readFor?, hspace]
    simp only [Option.bind_eq_bind, hchosen, Option.bind_some]
    rfl

end MediaCatalog.Json
