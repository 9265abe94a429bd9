import MediaCatalog.Json.Selection
import MediaCatalog.Proofs.Json.Text

/-!
# Passing over values — what is written is passed over as a whole

Every number is written in the grammar that is passed over (`isNumber_text`), and every string ends
at its closing quote. Passing over the compact text of a value therefore stops just behind it
(`Skip.value_compact`), and the length of the text bounds the work.
-/

namespace MediaCatalog.Json

/-! ## 1. Numbers -/

/-- One digit or more. -/
def IsDigits (text : List Char) : Prop :=
  text ≠ [] ∧ ∀ c ∈ text, Reader.isDigit c = true

/-- Digits without a leading zero, or a single zero. -/
def IsInteger (text : List Char) : Prop :=
  text = ['0'] ∨ IsDigits text ∧ text.head? ≠ some '0'

def IsFraction (text : List Char) : Prop :=
  text = [] ∨ ∃ digits, text = '.' :: digits ∧ IsDigits digits

def IsExponent (text : List Char) : Prop :=
  text = [] ∨ ∃ sign digits, text = 'e' :: sign :: digits ∧ (sign = '+' ∨ sign = '-') ∧
    IsDigits digits

/-- A number without its sign. -/
def IsNumber (text : List Char) : Prop :=
  ∃ integer fraction exponent, text = integer ++ fraction ++ exponent ∧ IsInteger integer ∧
    IsFraction fraction ∧ IsExponent exponent

/-- Nothing follows, or something that ends a value. -/
def Delimited (rest : List Char) : Prop :=
  ∀ c ∈ rest.head?, c = ',' ∨ c = ']' ∨ c = '\x7d'

theorem delimited_items (vs : List Json) (rest : List Char) :
    Delimited (compactItems vs ++ rest) := by
  cases vs with
  | nil => exact fun c hc => Or.inr (Or.inl (Option.some.inj hc).symm)
  | cons v vs => exact fun c hc => Or.inl (Option.some.inj hc).symm

theorem delimited_members (ms : Members) (rest : List Char) :
    Delimited (compactMembers ms ++ rest) := by
  cases ms with
  | nil => exact fun c hc => Or.inr (Or.inr (Option.some.inj hc).symm)
  | cons m ms => exact fun c hc => Or.inl (Option.some.inj hc).symm

namespace Skip

/-- What does not start with a digit ends a run of digits. -/
theorem digits_append {text rest : List Char} (h : IsDigits text)
    (hrest : ∀ c ∈ rest.head?, Reader.isDigit c = false) : digits (text ++ rest) = some rest := by
  obtain ⟨hne, hall⟩ := h
  obtain ⟨c, more, rfl⟩ := List.exists_cons_of_ne_nil hne
  rw [List.forall_mem_cons] at hall
  rw [List.cons_append, digits, if_pos hall.1, List.dropWhile_append_of_pos hall.2]
  cases rest with
  | nil => rfl
  | cons d rest => rw [List.dropWhile_cons_of_neg (by simp [hrest d rfl])]

theorem integer_append {text rest : List Char} (h : IsInteger text)
    (hrest : ∀ c ∈ rest.head?, Reader.isDigit c = false) : integer (text ++ rest) = some rest := by
  obtain rfl | ⟨hdigits, hzero⟩ := h
  · rfl
  · obtain ⟨c, more, rfl⟩ := List.exists_cons_of_ne_nil hdigits.1
    have hc : c ≠ '0' := fun hc => hzero (by rw [hc]; rfl)
    have hinteger : integer (c :: more ++ rest) = digits (c :: more ++ rest) := by
      rw [integer]
      rintro rest' heq
      exact hc (List.cons.inj heq).1
    rw [hinteger, digits_append hdigits hrest]

theorem fraction_append {text rest : List Char} (h : IsFraction text)
    (hrest : ∀ c ∈ rest.head?, Reader.isDigit c = false ∧ c ≠ '.') :
    fraction (text ++ rest) = some rest := by
  obtain rfl | ⟨ds, rfl, hdigits⟩ := h
  · rw [List.nil_append, fraction]
    rintro rest' rfl
    exact (hrest '.' rfl).2 rfl
  · exact digits_append hdigits fun c hc => (hrest c hc).1

theorem exponent_append {text rest : List Char} (h : IsExponent text)
    (hrest : ∀ c ∈ rest.head?, Reader.isDigit c = false ∧ c ≠ 'e' ∧ c ≠ 'E') :
    exponent (text ++ rest) = some rest := by
  obtain rfl | ⟨sign, ds, rfl, hsign, hdigits⟩ := h
  · rw [List.nil_append, exponent]
    · rintro rest' rfl
      exact (hrest 'e' rfl).2.1 rfl
    · rintro rest' rfl
      exact (hrest 'E' rfl).2.2 rfl
  · have hds := digits_append hdigits fun c hc => (hrest c hc).1
    obtain rfl | rfl := hsign
    · exact hds
    · exact hds

theorem number_append {text rest : List Char} (h : IsNumber text) (hrest : Delimited rest) :
    number (text ++ rest) = some rest := by
  obtain ⟨whole, frac, exp, rfl, hwhole, hfrac, hexp⟩ := h
  have hend : ∀ c ∈ rest.head?, Reader.isDigit c = false ∧ c ≠ '.' ∧ c ≠ 'e' ∧ c ≠ 'E' := by
    intro c hc
    obtain rfl | rfl | rfl := hrest c hc <;> decide
  have hexpEnd : ∀ c ∈ (exp ++ rest).head?, Reader.isDigit c = false ∧ c ≠ '.' := by
    obtain rfl | ⟨sign, ds, rfl, -⟩ := hexp
    · exact fun c hc => ⟨(hend c hc).1, (hend c hc).2.1⟩
    · intro c hc
      obtain rfl := Option.some.inj hc
      decide
  have hfracEnd : ∀ c ∈ (frac ++ (exp ++ rest)).head?, Reader.isDigit c = false := by
    obtain rfl | ⟨ds, rfl, -⟩ := hfrac
    · exact fun c hc => (hexpEnd c hc).1
    · intro c hc
      obtain rfl := Option.some.inj hc
      decide
  rw [number, List.append_assoc, List.append_assoc, integer_append hwhole hfracEnd,
    Option.bind_some, fraction_append hfrac hexpEnd, Option.bind_some,
    exponent_append hexp fun c hc => ⟨(hend c hc).1, (hend c hc).2.2⟩]

end Skip

/-! ## 2. Texts of numbers -/

theorem isDigit_of_range {c : Char} (h : 48 ≤ c.toNat ∧ c.toNat ≤ 57) :
    Reader.isDigit c = true := by
  have hlow : '0' ≤ c := UInt32.le_iff_toNat_le.mpr h.1
  have hhigh : c ≤ '9' := UInt32.le_iff_toNat_le.mpr h.2
  simp [Reader.isDigit, hlow, hhigh]

theorem isDigits_of_isNumeral {text : List Char} {n : Nat} (h : Text.IsNumeral 10 text n)
    (hne : text ≠ []) : IsDigits text :=
  ⟨hne, fun c hc => isDigit_of_range (h.toNat_range c hc)⟩

theorem isDigits_decimalNumber (n : Nat) : IsDigits (Text.decimalNumber n) :=
  isDigits_of_isNumeral (Text.isNumeral_decimalNumber n) (Text.decimalNumber_ne_nil n)

theorem head?_decimalNumber {n : Nat} (h : n ≠ 0) :
    (Text.decimalNumber n).head? ≠ some '0' := by
  fun_induction Text.decimalNumber n with
  | case1 n hlt =>
    have hall : ∀ d < 10, d ≠ 0 → [Text.hexDigit d].head? ≠ some '0' := by decide
    exact hall n hlt h
  | case2 n hlt ih =>
    rw [List.head?_append_of_ne_nil _ (Text.decimalNumber_ne_nil _)]
    exact ih (by omega)

theorem isInteger_decimalNumber (n : Nat) : IsInteger (Text.decimalNumber n) := by
  by_cases h : n = 0
  · subst h
    left
    rw [Text.decimalNumber]
    rfl
  · exact Or.inr ⟨isDigits_decimalNumber n, head?_decimalNumber h⟩

theorem isNumber_decimalNumber (n : Nat) : IsNumber (Text.decimalNumber n) :=
  ⟨_, [], [], by simp, isInteger_decimalNumber n, Or.inl rfl, Or.inl rfl⟩

/-- What has a first digit other than zero is part of a longer run with one. -/
theorem isInteger_append {digits more : List Char} (h : IsDigits digits)
    (hhead : digits.head? ≠ some '0') (hmore : ∀ c ∈ more, Reader.isDigit c = true) :
    IsInteger (digits ++ more) := by
  refine Or.inr ⟨⟨List.append_ne_nil_of_left_ne_nil h.1 _, ?_⟩, ?_⟩
  · exact List.forall_mem_append.mpr ⟨h.2, hmore⟩
  · rwa [List.head?_append_of_ne_nil _ h.1]

theorem isNumber_pointed {whole back : List Char} (hwhole : IsInteger whole)
    (hback : IsDigits back) :
    IsNumber (whole ++ '.' :: back) :=
  ⟨whole, _, [], by simp, hwhole, Or.inr ⟨back, rfl, hback⟩, Or.inl rfl⟩

theorem isNumber_scientific (digits : List Char) (order : Int) :
    IsDigits digits → digits.head? ≠ some '0' →
    IsNumber ((match digits with
      | c :: c' :: rest => c :: '.' :: c' :: rest
      | short => short) ++
        'e' :: (if order < 0 then '-' else '+') :: Text.decimalNumber order.natAbs) := by
  intro h hhead
  have hexponent : IsExponent
      ('e' :: (if order < 0 then '-' else '+') :: Text.decimalNumber order.natAbs) := by
    refine Or.inr ⟨_, _, rfl, ?_, isDigits_decimalNumber _⟩
    split
    next => exact Or.inr rfl
    next => exact Or.inl rfl
  match digits, h, hhead with
  | c :: c' :: rest, h, hhead =>
    obtain ⟨hc, hrest⟩ := List.forall_mem_cons.mp h.2
    have hfirst : IsDigits [c] := ⟨by simp, by simpa using hc⟩
    exact ⟨[c], '.' :: c' :: rest, _, rfl, Or.inr ⟨hfirst, hhead⟩,
      Or.inr ⟨_, rfl, List.cons_ne_nil _ _, hrest⟩, hexponent⟩
  | [c], h, hhead => exact ⟨[c], [], _, rfl, Or.inr ⟨h, hhead⟩, Or.inl rfl, hexponent⟩

theorem isNumber_decimal (d : Decimal) : IsNumber d.text := by
  have hdigits := isDigits_decimalNumber d.digits
  have hlength : 0 < (Text.decimalNumber d.digits).length := List.length_pos_iff.mpr hdigits.1
  have hzero : IsDigits ['0'] := ⟨List.cons_ne_nil _ _, List.forall_mem_singleton.mpr rfl⟩
  have hinteger : IsInteger ['0'] := Or.inl rfl
  have hzeros (k : Nat) : ∀ c ∈ List.replicate k '0', Reader.isDigit c = true := by
    intro c hc
    rw [List.eq_of_mem_replicate hc]
    rfl
  unfold Decimal.text
  dsimp only
  split
  next => exact isNumber_pointed hinteger hzero
  next hne =>
    have hhead := head?_decimalNumber hne
    generalize Text.decimalNumber d.digits = digits at hdigits hhead hlength ⊢
    split
    next => exact isNumber_scientific digits _ hdigits hhead
    next =>
      split
      next => exact isNumber_pointed (isInteger_append hdigits hhead (hzeros _)) hzero
      next hfraction =>
        split
        next hinside =>
          generalize hplace : (d.exponent + digits.length - 1).toNat = place
          have htake : digits.take (place + 1) ≠ [] := by
            rw [Ne, List.take_eq_nil_iff]
            simp [hdigits.1]
          have hdrop : digits.drop (place + 1) ≠ [] := by
            rw [Ne, List.drop_eq_nil_iff]
            omega
          refine isNumber_pointed (Or.inr ⟨⟨htake, fun c hc => ?_⟩, ?_⟩) ⟨hdrop, fun c hc => ?_⟩
          · exact hdigits.2 c (List.mem_of_mem_take hc)
          · rwa [List.head?_take, if_neg (by simp)]
          · exact hdigits.2 c (List.mem_of_mem_drop hc)
        next =>
          exact isNumber_pointed hinteger
            ⟨List.append_ne_nil_of_right_ne_nil _ hdigits.1,
              List.forall_mem_append.mpr ⟨hzeros _, hdigits.2⟩⟩

/-- The text of a number has a sign or none. -/
theorem isNumber_text (n : Number) :
    IsNumber n.text ∨ ∃ text, n.text = '-' :: text ∧ IsNumber text := by
  match n with
  | .whole (.ofNat n) => exact Or.inl (isNumber_decimalNumber n)
  | .whole (.negSucc n) => exact Or.inr ⟨_, rfl, isNumber_decimalNumber (n + 1)⟩
  | .real x =>
    rw [Number.text, Double.text]
    split
    next => exact Or.inr ⟨_, rfl, isNumber_decimal x.shortest⟩
    next => exact Or.inl (isNumber_decimal x.shortest)

/-! ## 3. Strings -/

namespace Skip

theorem string_simple {letter : Char} (hletter : letter ≠ 'u')
    (h : (Reader.simpleEscape? letter).isSome = true) (rest : List Char) :
    string ('\\' :: letter :: rest) = string rest := by
  rw [string, if_pos h]
  simp [hletter]

theorem string_plain {c : Char} (hquote : c ≠ '"') (hbackslash : c ≠ '\\')
    (hcontrol : ¬c.toNat < 0x20) (rest : List Char) : string (c :: rest) = string rest := by
  rw [string, if_neg hquote, if_neg (by simp [hcontrol, hbackslash])]
  · simp [hbackslash]
  · simp [hbackslash]

theorem isHexDigit_hexDigit {d : Nat} (hd : d < 16) : isHexDigit (Text.hexDigit d) = true := by
  rw [isHexDigit, Text.digitIn?_hexDigit hd]
  rfl

theorem string_hexDigits (n : Nat) (rest : List Char) :
    string ('\\' :: 'u' :: (Text.hexDigits 4 n ++ rest)) = string rest := by
  have hdigits : Text.hexDigits 4 n = [Text.hexDigit (n / 16 / 16 / 16 % 16),
      Text.hexDigit (n / 16 / 16 % 16), Text.hexDigit (n / 16 % 16), Text.hexDigit (n % 16)] := rfl
  have hmod (m : Nat) : m % 16 < 16 := Nat.mod_lt m (by decide)
  rw [hdigits]
  simp only [List.cons_append, List.nil_append]
  rw [string, if_pos]
  simp [isHexDigit_hexDigit (hmod _)]

theorem string_escapeChar (c : Char) (rest : List Char) :
    string (escapeChar c ++ rest) = string rest := by
  unfold escapeChar
  split
  next => exact string_simple (by decide) rfl rest
  next hquote =>
  split
  next => exact string_simple (by decide) rfl rest
  next hbackslash =>
  split
  next => exact string_simple (by decide) rfl rest
  split
  next => exact string_simple (by decide) rfl rest
  split
  next => exact string_simple (by decide) rfl rest
  split
  next => exact string_simple (by decide) rfl rest
  split
  next => exact string_simple (by decide) rfl rest
  split
  next => exact string_hexDigits c.toNat rest
  next hcontrol => exact string_plain hquote hbackslash hcontrol rest

theorem string_escaped (s : List Char) (rest : List Char) :
    string (s.flatMap escapeChar ++ '"' :: rest) = some rest := by
  induction s with
  | nil => rfl
  | cons c s ih => rw [List.flatMap_cons, List.append_assoc, string_escapeChar, ih]

end Skip

/-! ## 4. Values -/

theorem skipSpace_compact (v : Json) (rest : List Char) :
    Reader.skipSpace (v.compact ++ rest) = v.compact ++ rest := by
  obtain ⟨c, more, hv, hc⟩ := v.exists_first
  rw [hv, List.cons_append, Reader.skipSpace, if_neg]
  rintro (rfl | rfl | rfl | rfl) <;> cases hc

theorem quote_append (s : String) (rest : List Char) :
    quote s ++ rest = '"' :: (s.toList.flatMap escapeChar ++ '"' :: rest) := by
  simp [quote]

theorem compact_pos (v : Json) : 0 < v.compact.length := by
  obtain ⟨c, more, hv, -⟩ := v.exists_first
  rw [hv]
  exact Nat.succ_pos _

theorem compactItems_pos (vs : List Json) : 0 < (compactItems vs).length := by
  cases vs <;> exact Nat.succ_pos _

theorem compactMembers_pos (ms : Members) : 0 < (compactMembers ms).length := by
  cases ms <;> exact Nat.succ_pos _

/-- What stands before an item or a member. -/
def separator (first : Bool) : List Char :=
  if first then [] else [',']

theorem compact_array_append (v : Json) (vs : List Json) (rest : List Char) :
    (array (v :: vs)).compact ++ rest =
      '[' :: (separator true ++ (v.compact ++ (compactItems vs ++ rest))) := by
  simp [compact, separator]

theorem compactItems_append (v : Json) (vs : List Json) (rest : List Char) :
    compactItems (v :: vs) ++ rest =
      separator false ++ (v.compact ++ (compactItems vs ++ rest)) := by
  simp [compactItems, separator]

theorem compact_object_append (k : String) (v : Json) (ms : Members) (rest : List Char) :
    (object ((k, v) :: ms)).compact ++ rest = '\x7b' ::
      (separator true ++ (quote k ++ ':' :: (v.compact ++ (compactMembers ms ++ rest)))) := by
  simp [compact, separator]

theorem compactMembers_append (k : String) (v : Json) (ms : Members) (rest : List Char) :
    compactMembers ((k, v) :: ms) ++ rest =
      separator false ++ (quote k ++ ':' :: (v.compact ++ (compactMembers ms ++ rest))) := by
  simp [compactMembers, separator]

theorem skipSpace_item (first : Bool) (v : Json) (rest : List Char) :
    Reader.skipSpace (separator first ++ (v.compact ++ rest)) =
      separator first ++ (v.compact ++ rest) := by
  cases first with
  | true => exact skipSpace_compact v rest
  | false => rfl

/-- No value starts with what closes an array. -/
theorem compact_ne (v : Json) (rest rest' : List Char) : v.compact ++ rest ≠ ']' :: rest' := by
  obtain ⟨c, more, hv, hc⟩ := v.exists_first
  rw [hv, List.cons_append]
  intro heq
  obtain ⟨rfl, -⟩ := List.cons.inj heq
  cases hc

theorem item_ne (first : Bool) (v : Json) (rest rest' : List Char) :
    separator first ++ (v.compact ++ rest) ≠ ']' :: rest' := by
  cases first with
  | true => exact compact_ne v rest rest'
  | false => exact fun heq => by cases heq

theorem itemStart_eq (first : Bool) (v : Json) (rest : List Char) :
    (if first = true then .ok (separator first ++ (v.compact ++ rest))
      else Reader.nextItem (separator first ++ (v.compact ++ rest))) =
        .ok (v.compact ++ rest) := by
  cases first with
  | true => rfl
  | false =>
    have hspace := skipSpace_compact v rest
    rw [if_neg (by decide), separator, if_neg (by decide), List.singleton_append, Reader.nextItem,
      hspace]
    split
    next heq =>
      have := v.compact_pos
      simp_all
    next heq => exact absurd heq (compact_ne v rest _)
    next => rfl

theorem skipSpace_member (first : Bool) (k : String) (rest : List Char) :
    Reader.skipSpace (separator first ++ (quote k ++ rest)) =
      separator first ++ (quote k ++ rest) := by
  cases first <;> rfl

theorem member_ne (first : Bool) (k : String) (rest rest' : List Char) :
    separator first ++ (quote k ++ rest) ≠ '\x7d' :: rest' := by
  cases first <;> exact fun heq => by cases heq

theorem keyStart_eq (first : Bool) (k : String) (rest : List Char) :
    (if first = true then Reader.firstKey (separator first ++ (quote k ++ rest))
      else Reader.nextKey (separator first ++ (quote k ++ rest))) =
        .ok (k.toList.flatMap escapeChar ++ '"' :: rest) := by
  rw [quote_append]
  cases first <;> rfl

namespace Skip

theorem head_of_isNumber {text : List Char} (h : IsNumber text) :
    ∃ c more, text = c :: more ∧ Reader.isDigit c = true := by
  obtain ⟨whole, frac, exp, rfl, hwhole, -⟩ := h
  obtain rfl | ⟨hdigits, -⟩ := hwhole
  · exact ⟨'0', _, rfl, rfl⟩
  · obtain ⟨c, more, rfl⟩ := List.exists_cons_of_ne_nil hdigits.1
    exact ⟨c, _, rfl, hdigits.2 c List.mem_cons_self⟩

theorem value_number (n : Number) {rest : List Char} (hrest : Delimited rest) (fuel : Nat) :
    value (fuel + 1) (n.text ++ rest) = some rest := by
  have hspace := skipSpace_compact (.number n) rest
  rw [compact] at hspace
  rw [value, hspace]
  obtain h | ⟨text, htext, h⟩ := isNumber_text n
  · obtain ⟨c, more, hhead, hc⟩ := head_of_isNumber h
    have hnumber := number_append h hrest
    rw [hhead, List.cons_append] at hnumber ⊢
    have hother {d : Char} {tail : List Char} (hd : Reader.isDigit d = false) :
        c :: (more ++ rest) ≠ d :: tail := by
      intro heq
      rw [(List.cons.inj heq).1, hd] at hc
      cases hc
    split
    next heq => exact absurd heq (hother rfl)
    next heq => exact absurd heq (hother rfl)
    next heq => exact absurd heq (hother rfl)
    next heq => exact absurd heq (hother rfl)
    next heq => exact absurd heq (hother rfl)
    next heq => exact absurd heq (hother rfl)
    next heq => exact absurd heq (hother rfl)
    next => exact hnumber
  · rw [htext]
    exact number_append h hrest

theorem items_cons (first : Bool) (v : Json) (fuel : Nat) (rest : List Char) :
    items (fuel + 1) first (separator first ++ (v.compact ++ rest)) =
      (value fuel (v.compact ++ rest)).bind (items fuel false) := by
  rw [items, skipSpace_item]
  split
  next heq => exact absurd heq (item_ne first v rest _)
  next =>
    rw [itemStart_eq]
    dsimp only
    cases value fuel (v.compact ++ rest) <;> rfl

theorem member_escaped (k : String) (rest : List Char) :
    ((string (k.toList.flatMap escapeChar ++ '"' :: ':' :: rest)).bind
      fun rest => (Reader.colon rest).toOption) = some rest := by
  rw [string_escaped]
  rfl

theorem members_cons (first : Bool) (k : String) (fuel : Nat) (rest : List Char) :
    members (fuel + 1) first (separator first ++ (quote k ++ ':' :: rest)) =
      (value fuel rest).bind (members fuel false) := by
  rw [members, skipSpace_member]
  split
  next heq => exact absurd heq (member_ne first k _ _)
  next =>
    rw [keyStart_eq]
    dsimp only
    rw [member_escaped]
    dsimp only
    cases value fuel rest <;> rfl

theorem value_array (fuel : Nat) (rest : List Char) :
    value (fuel + 1) ('[' :: rest) = items fuel true rest := by
  rw [value]
  rfl

theorem value_object (fuel : Nat) (rest : List Char) :
    value (fuel + 1) ('\x7b' :: rest) = members fuel true rest := by
  rw [value]
  rfl

mutual

/-- Every value takes at least one character, so that the length of its text is fuel enough. -/
theorem value_compact (v : Json) {fuel : Nat} (hfuel : v.compact.length ≤ fuel) {rest : List Char}
    (hrest : Delimited rest) : value fuel (v.compact ++ rest) = some rest := by
  obtain ⟨fuel, rfl⟩ := Nat.exists_eq_add_one.mpr (Nat.lt_of_lt_of_le v.compact_pos hfuel)
  match v with
  | .null => rfl
  | .bool true => rfl
  | .bool false => rfl
  | .number n => exact value_number n hrest fuel
  | .string s =>
    rw [compact, quote_append]
    exact string_escaped s.toList rest
  | .array [] =>
    obtain ⟨fuel, rfl⟩ : ∃ k, fuel = k + 1 := ⟨fuel - 1, by simp [compact] at hfuel; omega⟩
    rfl
  | .array (v :: vs) =>
    have hv := v.compact_pos
    have hend := compactItems_pos vs
    simp only [compact, List.length_cons, List.length_append] at hfuel
    obtain ⟨fuel, rfl⟩ : ∃ k, fuel = k + 1 := ⟨fuel - 1, by omega⟩
    rw [compact_array_append, value_array, items_cons,
      value_compact v (by omega) (delimited_items vs rest), Option.bind_some,
      items_compact vs (by omega)]
  | .object [] =>
    obtain ⟨fuel, rfl⟩ : ∃ k, fuel = k + 1 := ⟨fuel - 1, by simp [compact] at hfuel; omega⟩
    rfl
  | .object ((k, v) :: ms) =>
    have hv := v.compact_pos
    simp only [compact, List.length_cons, List.length_append] at hfuel
    obtain ⟨fuel, rfl⟩ : ∃ k, fuel = k + 1 := ⟨fuel - 1, by omega⟩
    rw [compact_object_append, value_object, members_cons,
      value_compact v (by omega) (delimited_members ms rest), Option.bind_some,
      members_compact ms (by omega)]

theorem items_compact (vs : List Json) {fuel : Nat} (hfuel : (compactItems vs).length ≤ fuel)
    (rest : List Char) : items fuel false (compactItems vs ++ rest) = some rest := by
  obtain ⟨fuel, rfl⟩ := Nat.exists_eq_add_one.mpr (Nat.lt_of_lt_of_le (compactItems_pos vs) hfuel)
  match vs with
  | [] => rfl
  | v :: vs =>
    simp only [compactItems, List.length_cons, List.length_append] at hfuel
    rw [compactItems_append, items_cons, value_compact v (by omega) (delimited_items vs rest),
      Option.bind_some, items_compact vs (by omega)]

theorem members_compact (ms : Members) {fuel : Nat} (hfuel : (compactMembers ms).length ≤ fuel)
    (rest : List Char) : members fuel false (compactMembers ms ++ rest) = some rest := by
  obtain ⟨fuel, rfl⟩ := Nat.exists_eq_add_one.mpr (Nat.lt_of_lt_of_le (compactMembers_pos ms) hfuel)
  match ms with
  | [] => rfl
  | (k, v) :: ms =>
    simp only [compactMembers, List.length_cons, List.length_append] at hfuel
    rw [compactMembers_append, members_cons, value_compact v (by omega) (delimited_members ms rest),
      Option.bind_some, members_compact ms (by omega)]

end

end Skip

/-- What is passed over is the value just written. -/
theorem skip?_compact (v : Json) {rest : List Char} (hrest : Delimited rest) :
    skip? (v.compact ++ rest) = some rest := by
  refine Skip.value_compact v ?_ hrest
  rw [List.length_append]
  omega

end MediaCatalog.Json
