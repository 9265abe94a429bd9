import MediaCatalog.Proofs.Text.Hex
import MediaCatalog.Tag.Escape

/-!
# Grammar — which texts can be decoded, and to what

The decoder scans a text and takes as much as it needs for each escape. The grammar says the same
without a scanner: a text is a sequence of tokens, each with a value of its own (`Tokens`), and a
text that is not begins with such a sequence, behind which an escape is broken (`Broken`).
-/

namespace MediaCatalog.Escape

/-! ## 1. The grammar -/

/-- The characters with a meaning of their own behind a backslash, and this meaning. -/
def simpleEscapes : List (Char × Char) :=
  [('\\', '\\'), ('\'', '\''), ('"', '"'), ('a', '\x07'), ('b', '\x08'), ('f', '\x0c'),
    ('n', '\n'), ('r', '\r'), ('t', '\t'), ('v', '\x0b')]

/-- The letters before hexadecimal digits, how many these are and the fault if they are missing. -/
def hexEscapes : List (Char × Nat × Fault) :=
  [('x', 2, .shortByte), ('u', 4, .shortUnit), ('U', 8, .shortPoint)]

def IsOctal (c : Char) : Prop :=
  ∃ d, Text.IsDigit 8 c d

/-- No octal digit is at the beginning of a text. -/
def NotOctal (text : List Char) : Prop :=
  ∀ c, text.head? = some c → ¬IsOctal c

/-- A backslash before the character is not kept. -/
def IsSpecial (c : Char) : Prop :=
  c = '\n' ∨ (∃ value, (c, value) ∈ simpleEscapes) ∨ IsOctal c ∨ c ∈ ['x', 'u', 'U', 'N']

/-- One token and what it is worth, before the rest of a text. -/
inductive Token (rest : List Char) : (text value : List Char) → Prop where
  | plain {c : Char} (h : c ≠ '\\') : Token rest [c] [c]
  | lineEnd : Token rest ['\\', '\n'] []
  | simple {c value : Char} (h : (c, value) ∈ simpleEscapes) : Token rest ['\\', c] [value]
  /-- Fewer than three digits only where no other follows. -/
  | octal {digits : List Char} {code : Nat} (numeral : Text.IsNumeral 8 digits code)
      (atLeast : 1 ≤ digits.length) (atMost : digits.length ≤ 3)
      (greedy : digits.length = 3 ∨ NotOctal rest) : Token rest ('\\' :: digits) [Char.ofNat code]
  | hex {letter : Char} {width : Nat} {fault : Fault} {digits : List Char} {code : Nat}
      (h : (letter, width, fault) ∈ hexEscapes) (numeral : Text.IsNumeral 16 digits code)
      (length : digits.length = width) (scalar : code.isValidChar) :
      Token rest ('\\' :: letter :: digits) [Char.ofNat code]
  | other {c : Char} (h : ¬IsSpecial c) : Token rest ['\\', c] ['\\', c]

/-- A text is a sequence of tokens, and its value is that of the tokens in their order. -/
inductive Tokens : (text value : List Char) → Prop where
  | nil : Tokens [] []
  | cons {text value rest decoded : List Char} (token : Token rest text value)
      (more : Tokens rest decoded) : Tokens (text ++ rest) (value ++ decoded)

/-- At the beginning of a text stands an escape that is no token, for a reason. -/
inductive Broken : (text : List Char) → Fault → Prop where
  | unfinished : Broken ['\\'] .unfinished
  | short {letter : Char} {width : Nat} {fault : Fault} {rest : List Char}
      (h : (letter, width, fault) ∈ hexEscapes)
      (missing : ¬∃ digits after code, rest = digits ++ after ∧ digits.length = width ∧
        Text.IsNumeral 16 digits code) : Broken ('\\' :: letter :: rest) fault
  | notScalar {letter : Char} {width : Nat} {fault : Fault} {digits rest : List Char} {code : Nat}
      (h : (letter, width, fault) ∈ hexEscapes) (numeral : Text.IsNumeral 16 digits code)
      (length : digits.length = width) (scalar : ¬code.isValidChar) :
      Broken ('\\' :: letter :: (digits ++ rest)) .notScalar
  | named {rest : List Char} : Broken ('\\' :: 'N' :: rest) .named

/-! ## 2. What the decoder knows of single characters -/

theorem simple?_eq_some_iff {c value : Char} :
    simple? c = some value ↔ (c, value) ∈ simpleEscapes := by
  constructor
  · intro h
    unfold simple? at h
    split at h <;> cases h <;> decide
  · have hall : ∀ p ∈ simpleEscapes, simple? p.1 = some p.2 := by decide
    exact fun h => hall _ h

theorem hexWidth?_eq_some_iff {letter : Char} {width : Nat} {fault : Fault} :
    hexWidth? letter = some (width, fault) ↔ (letter, width, fault) ∈ hexEscapes := by
  constructor
  · intro h
    unfold hexWidth? at h
    split at h <;> cases h <;> decide
  · have hall : ∀ p ∈ hexEscapes, hexWidth? p.1 = some p.2 := by decide
    exact fun h => hall _ h

theorem isOctal_iff {c : Char} : IsOctal c ↔ (Text.digitIn? 8 c).isSome := by
  rw [Option.isSome_iff_exists]
  exact exists_congr fun d => (Text.digitIn?_eq_some_iff (by decide)).symm

theorem simple?_of_isOctal {c : Char} (h : IsOctal c) : simple? c = none := by
  rw [Option.eq_none_iff_forall_not_mem]
  intro value hvalue
  have hall : ∀ p ∈ simpleEscapes, Text.digitIn? 8 p.1 = none := by decide
  have hnone := hall _ (simple?_eq_some_iff.mp hvalue)
  rw [isOctal_iff, hnone] at h
  cases h

theorem of_mem_hexEscapes {letter : Char} {width : Nat} {fault : Fault}
    (h : (letter, width, fault) ∈ hexEscapes) :
    simple? letter = none ∧ Text.digitIn? 8 letter = none := by
  have hall : ∀ p ∈ hexEscapes, simple? p.1 = none ∧ Text.digitIn? 8 p.1 = none := by decide
  exact hall _ h

theorem notOctal_nil : NotOctal [] := by
  intro c h
  cases h

theorem notOctal_backslash (rest : List Char) : NotOctal ('\\' :: rest) := by
  intro c h
  cases h
  rw [isOctal_iff]
  decide

/-- Only the first character counts. -/
theorem NotOctal.append {text rest : List Char} (h : NotOctal text) (hrest : NotOctal rest) :
    NotOctal (text ++ rest) := by
  cases text with
  | nil => exact hrest
  | cons c text => exact h

theorem NotOctal.of_append {text rest : List Char} (h : NotOctal (text ++ rest)) :
    NotOctal text := by
  cases text with
  | nil => exact notOctal_nil
  | cons c text => exact h

/-! ## 3. Digits behind a backslash -/

/-- The decoder takes all octal digits that it may take. -/
theorem octal_append {k value : Nat} {text rest : List Char} {digits : List Nat}
    (h : List.Forall₂ (Text.IsDigit 8) text digits) (hk : text.length ≤ k)
    (hgreedy : text.length = k ∨ NotOctal rest) :
    octal k value (text ++ rest) =
      (value * 8 ^ digits.length + Nat.ofDigits 8 digits.reverse, rest) := by
  -- By induction on the digits; with each the number of those that may still be taken goes down.
  induction h generalizing k value with
  | nil =>
    have hvalue : value * 8 ^ ([] : List Nat).length + Nat.ofDigits 8 ([] : List Nat).reverse =
        value := by simp
    rw [hvalue, List.nil_append]
    cases k with
    | zero => rfl
    | succ k =>
      have hrest : NotOctal rest := hgreedy.resolve_left (by simp)
      cases rest with
      | nil => rfl
      | cons c rest =>
        have hnone := hrest c rfl
        rw [isOctal_iff, Option.not_isSome_iff_eq_none] at hnone
        rw [octal, hnone]
  | @cons c d text digits hd _ ih =>
    cases k with
    | zero => simp at hk
    | succ k =>
      rw [List.length_cons] at hk hgreedy
      have hrest : octal k (value * 8 + d) (text ++ rest) = _ :=
        ih (by omega) (hgreedy.imp_left (by omega))
      rw [List.cons_append, octal, (Text.digitIn?_eq_some_iff (by decide)).mpr hd]
      show octal k (value * 8 + d) (text ++ rest) = _
      rw [hrest, Text.ofDigits_reverse_cons, List.length_cons, Nat.pow_succ]
      congr 1
      ring

/-- There is always such a run of digits, which may be empty. -/
theorem exists_octal_run (k : Nat) (text : List Char) :
    ∃ run digits rest, text = run ++ rest ∧ List.Forall₂ (Text.IsDigit 8) run digits ∧
      run.length ≤ k ∧ (run.length = k ∨ NotOctal rest) := by
  induction k generalizing text with
  | zero => exact ⟨[], [], text, rfl, .nil, Nat.le_refl _, Or.inl rfl⟩
  | succ k ih =>
    by_cases hfirst : NotOctal text
    · exact ⟨[], [], text, rfl, .nil, Nat.zero_le _, Or.inr hfirst⟩
    · simp only [NotOctal, not_forall, not_not] at hfirst
      obtain ⟨c, hhead, d, hd⟩ := hfirst
      obtain ⟨tail, rfl⟩ := List.head?_eq_some_iff.mp hhead
      obtain ⟨run, digits, rest, rfl, hrun, hlength, hgreedy⟩ := ih tail
      refine ⟨c :: run, d :: digits, rest, rfl, .cons hd hrun, ?_, ?_⟩
      · rw [List.length_cons]
        omega
      · rw [List.length_cons]
        exact hgreedy.imp_left (by omega)

theorem hex_append {width code : Nat} {fault : Fault} {text rest : List Char}
    (h : Text.IsNumeral 16 text code) (hlength : text.length = width) :
    hex width fault (text ++ rest) =
      if code.isValidChar then .ok (Char.ofNat code, rest) else .error .notScalar := by
  have hlong : ¬(text ++ rest).length < width := by
    rw [List.length_append]
    omega
  rw [hex, if_neg hlong, List.take_left' hlength, List.drop_left' hlength,
    (Text.readDigits?_zero_iff (by decide)).mpr h]

theorem hex_of_missing {width : Nat} {fault : Fault} {text : List Char}
    (h : ¬∃ digits after code, text = digits ++ after ∧ digits.length = width ∧
      Text.IsNumeral 16 digits code) : hex width fault text = .error fault := by
  rw [hex]
  split
  next => rfl
  next hlong =>
    split
    next => rfl
    next code hcode =>
      refine absurd ⟨text.take width, text.drop width, code, ?_, ?_, ?_⟩ h
      · exact (List.take_append_drop width text).symm
      · exact List.length_take_of_le (Nat.le_of_not_lt hlong)
      · exact (Text.readDigits?_zero_iff (by decide)).mp hcode

/-! ## 4. One token -/

theorem escape_of_simple {c value : Char} {rest : List Char} (h : simple? c = some value) :
    escape c rest = .ok ([value], rest) := by
  unfold escape
  rw [h]

theorem escape_of_isOctal {c : Char} {d : Nat} {rest : List Char} (h : Text.IsDigit 8 c d) :
    escape c rest = .ok ([Char.ofNat (octal 2 d rest).1], (octal 2 d rest).2) := by
  unfold escape
  rw [simple?_of_isOctal ⟨d, h⟩, (Text.digitIn?_eq_some_iff (by decide)).mpr h]

theorem escape_of_mem_hexEscapes {letter : Char} {width : Nat} {fault : Fault} {rest : List Char}
    (h : (letter, width, fault) ∈ hexEscapes) :
    escape letter rest = (hex width fault rest).map fun p => ([p.1], p.2) := by
  obtain ⟨hsimple, hdigit⟩ := of_mem_hexEscapes h
  unfold escape
  rw [hsimple, hdigit, hexWidth?_eq_some_iff.mpr h]
  cases hfound : hex width fault rest with
  | error fault' => simp only [hfound, Except.map]
  | ok p => simp only [hfound, Except.map]

theorem escape_of_not_isSpecial {c : Char} {rest : List Char} (h : ¬IsSpecial c) :
    escape c rest = .ok (['\\', c], rest) := by
  simp only [IsSpecial, not_or, not_exists] at h
  obtain ⟨hline, hsimple, hoctal, hletters⟩ := h
  have hsimple' : simple? c = none := by
    rw [Option.eq_none_iff_forall_not_mem]
    exact fun value hvalue => hsimple value (simple?_eq_some_iff.mp hvalue)
  have hwidth : hexWidth? c = none := by
    rw [Option.eq_none_iff_forall_not_mem]
    rintro ⟨width, fault⟩ hfound
    have hall : ∀ p ∈ hexEscapes, p.1 ∈ ['x', 'u', 'U', 'N'] := by decide
    exact hletters (hall _ (hexWidth?_eq_some_iff.mp hfound))
  have hname : c ≠ 'N' := fun heq => hletters (by simp [heq])
  rw [isOctal_iff, Option.not_isSome_iff_eq_none] at hoctal
  unfold escape
  rw [hsimple', hoctal, hwidth]
  show (if c = '\n' then _ else if c = 'N' then _ else _) = _
  rw [if_neg hline, if_neg hname]

theorem unescape_plain {c : Char} {rest : List Char} (h : c ≠ '\\') :
    unescape (c :: rest) = (unescape rest).map (c :: ·) := by
  rw [unescape.eq_def]
  show (if c = '\\' then _ else _) = _
  rw [if_neg h]
  cases unescape rest <;> rfl

theorem unescape_of_escape {next : Char} {text value rest : List Char}
    (h : escape next text = .ok (value, rest)) :
    unescape ('\\' :: next :: text) = (unescape rest).map (value ++ ·) := by
  rw [unescape, if_pos rfl]
  split
  next hfault => rw [h] at hfault; cases hfault
  next value' rest' hout =>
    rw [h, Except.ok.injEq, Prod.mk.injEq] at hout
    obtain ⟨rfl, rfl⟩ := hout
    cases unescape rest <;> rfl

theorem unescape_of_escape_error {next : Char} {text : List Char} {fault : Fault}
    (h : escape next text = .error fault) :
    unescape ('\\' :: next :: text) = .error fault := by
  rw [unescape, if_pos rfl]
  split
  next hfault =>
    rw [h, Except.error.injEq] at hfault
    rw [hfault]
  next hout => rw [h] at hout; cases hout

/-- The decoder takes a token in one step, and the text behind it next. -/
theorem unescape_token {text value rest : List Char} (h : Token rest text value) :
    unescape (text ++ rest) = (unescape rest).map (value ++ ·) := by
  cases h with
  | plain h => exact unescape_plain h
  | lineEnd =>
    have hescape : escape '\n' rest = .ok ([], rest) := rfl
    exact unescape_of_escape hescape
  | simple h => exact unescape_of_escape (escape_of_simple (simple?_eq_some_iff.mpr h))
  | @octal digits code numeral atLeast atMost greedy =>
    -- The first digit decides what kind of escape this is; `octal` only reads the others.
    obtain ⟨values, hvalues, rfl⟩ := numeral
    cases hvalues with
    | nil => simp at atLeast
    | @cons c d digits values hd hvalues =>
      rw [List.length_cons] at atMost greedy
      have hoctal : octal 2 d (digits ++ rest) = _ :=
        octal_append hvalues (by omega) (greedy.imp_left (by omega))
      have hescape : escape c (digits ++ rest) = _ := escape_of_isOctal hd
      rw [hoctal, ← Text.ofDigits_reverse_cons] at hescape
      exact unescape_of_escape hescape
  | @hex letter width fault digits code h numeral length scalar =>
    have hescape : escape letter (digits ++ rest) = _ := escape_of_mem_hexEscapes h
    rw [hex_append numeral length, if_pos scalar] at hescape
    exact unescape_of_escape hescape
  | other h => exact unescape_of_escape (escape_of_not_isSpecial h)

theorem unescape_broken {text : List Char} {fault : Fault} (h : Broken text fault) :
    unescape text = .error fault := by
  cases h with
  | unfinished => rw [unescape, if_pos rfl]
  | short h missing =>
    apply unescape_of_escape_error
    rw [escape_of_mem_hexEscapes h, hex_of_missing missing]
    rfl
  | notScalar h numeral length scalar =>
    apply unescape_of_escape_error
    rw [escape_of_mem_hexEscapes h, hex_append numeral length, if_neg scalar]
    rfl
  | named =>
    have hescape (rest : List Char) : escape 'N' rest = .error .named := rfl
    exact unescape_of_escape_error (hescape _)

/-- Every text but the empty one begins with a token or with a broken escape. -/
theorem exists_token_or_broken (c : Char) (tail : List Char) :
    (∃ text value rest, c :: tail = text ++ rest ∧ text ≠ [] ∧ Token rest text value) ∨
      ∃ fault, Broken (c :: tail) fault := by
  by_cases hc : c = '\\'
  swap
  · exact Or.inl ⟨[c], [c], tail, rfl, by simp, .plain hc⟩
  subst hc
  cases tail with
  | nil => exact Or.inr ⟨.unfinished, .unfinished⟩
  | cons next tail =>
    by_cases hspecial : IsSpecial next
    swap
    · exact Or.inl ⟨['\\', next], ['\\', next], tail, rfl, by simp, .other hspecial⟩
    rcases hspecial with rfl | ⟨value, hsimple⟩ | ⟨d, hd⟩ | hletter
    · exact Or.inl ⟨['\\', '\n'], [], tail, rfl, by simp, .lineEnd⟩
    · exact Or.inl ⟨['\\', next], [value], tail, rfl, by simp, .simple hsimple⟩
    · obtain ⟨run, values, rest, rfl, hrun, hlength, hgreedy⟩ := exists_octal_run 2 tail
      refine Or.inl ⟨'\\' :: next :: run, _, rest, rfl, by simp,
        .octal ⟨d :: values, .cons hd hrun, rfl⟩ ?_ ?_ ?_⟩
      · rw [List.length_cons]
        omega
      · rw [List.length_cons]
        omega
      · rw [List.length_cons]
        exact hgreedy.imp_left (by omega)
    · by_cases hnamed : next = 'N'
      · subst hnamed
        exact Or.inr ⟨.named, .named⟩
      obtain ⟨width, fault, h⟩ : ∃ width fault, (next, width, fault) ∈ hexEscapes := by
        simp only [List.mem_cons, List.not_mem_nil, or_false, hnamed] at hletter
        rcases hletter with rfl | rfl | rfl
        · exact ⟨2, .shortByte, by decide⟩
        · exact ⟨4, .shortUnit, by decide⟩
        · exact ⟨8, .shortPoint, by decide⟩
      -- Whether there are enough digits is decided first, then what they name.
      by_cases hdigits : ∃ digits after code, tail = digits ++ after ∧ digits.length = width ∧
          Text.IsNumeral 16 digits code
      · obtain ⟨digits, after, code, rfl, hlength, hnumeral⟩ := hdigits
        by_cases hscalar : code.isValidChar
        · exact Or.inl ⟨'\\' :: next :: digits, _, after, rfl, by simp,
            .hex h hnumeral hlength hscalar⟩
        · exact Or.inr ⟨.notScalar, .notScalar h hnumeral hlength hscalar⟩
      · exact Or.inr ⟨fault, .short h hdigits⟩

/-! ## 5. Whole texts -/

/-- Of what follows a token only matters whether an octal digit comes first. -/
theorem Token.before {text value rest rest' : List Char} (h : Token rest text value)
    (hrest : NotOctal rest → NotOctal rest') : Token rest' text value := by
  cases h with
  | plain h => exact .plain h
  | lineEnd => exact .lineEnd
  | simple h => exact .simple h
  | octal numeral atLeast atMost greedy =>
    exact .octal numeral atLeast atMost (greedy.imp_right hrest)
  | hex h numeral length scalar => exact .hex h numeral length scalar
  | other h => exact .other h

theorem Broken.notOctal {text : List Char} {fault : Fault} (h : Broken text fault) :
    NotOctal text := by
  cases h <;> exact notOctal_backslash _

/-- What comes first may be put before the rest in one step or in two. -/
theorem map_append_map (front back : List Char) (result : Except Fault (List Char)) :
    (result.map (back ++ ·)).map (front ++ ·) = result.map (front ++ back ++ ·) := by
  cases result with
  | error fault => rfl
  | ok decoded => exact congrArg Except.ok (List.append_assoc _ _ _).symm

/-- A complete text is decoded by itself, whatever stands behind it, but for an octal digit. -/
theorem unescape_append {text value rest : List Char} (h : Tokens text value)
    (hrest : NotOctal rest) : unescape (text ++ rest) = (unescape rest).map (value ++ ·) := by
  induction h with
  | nil =>
    show unescape rest = _
    cases unescape rest <;> rfl
  | cons token more ih =>
    -- What stands behind the text can only touch its last token.
    have htoken := token.before fun h => h.append hrest
    rw [List.append_assoc, unescape_token htoken, ih, map_append_map]

/-- Without a backslash every character is a token, whatever follows the last. -/
theorem unescape_plain_append {text : List Char} (h : '\\' ∉ text) (rest : List Char) :
    unescape (text ++ rest) = (unescape rest).map (text ++ ·) := by
  induction text with
  | nil =>
    show unescape rest = _
    cases unescape rest <;> rfl
  | cons c text ih =>
    rw [List.mem_cons, not_or] at h
    rw [List.cons_append, unescape_plain (Ne.symm h.1), ih h.2]
    cases unescape rest <;> rfl

/-- Every text is a sequence of tokens, or begins with one before a broken escape. -/
theorem tokens_or_broken (text : List Char) :
    (∃ value, Tokens text value) ∨
      ∃ front value rest fault, text = front ++ rest ∧ Tokens front value ∧ Broken rest fault := by
  induction hlength : text.length using Nat.strong_induction_on generalizing text with
  | _ n ih =>
    cases text with
    | nil => exact Or.inl ⟨[], .nil⟩
    | cons c tail =>
      rcases exists_token_or_broken c tail with ⟨first, value, rest, hsplit, hne, htoken⟩ | hbroken
      · have hlt : rest.length < n := by
          have hpos := List.length_pos_iff.mpr hne
          rw [hsplit, List.length_append] at hlength
          omega
        rw [hsplit]
        rcases ih _ hlt rest rfl with
          ⟨decoded, hrest⟩ | ⟨front, decoded, back, fault, rfl, hfront, hbroken⟩
        · exact Or.inl ⟨_, .cons htoken hrest⟩
        · have hfirst : Token front first value := htoken.before NotOctal.of_append
          exact Or.inr ⟨first ++ front, value ++ decoded, back, fault,
            (List.append_assoc _ _ _).symm, .cons hfirst hfront, hbroken⟩
      · obtain ⟨fault, hbroken⟩ := hbroken
        exact Or.inr ⟨[], [], c :: tail, fault, rfl, .nil, hbroken⟩

theorem unescape_of_tokens {text value : List Char} (h : Tokens text value) :
    unescape text = .ok value := by
  have hnil : unescape [] = .ok [] := by rw [unescape]
  have happend := unescape_append h notOctal_nil
  rw [List.append_nil, hnil] at happend
  rw [happend]
  show Except.ok (value ++ []) = _
  rw [List.append_nil]

theorem unescape_of_broken {text value rest : List Char} {fault : Fault} (h : Tokens text value)
    (hbroken : Broken rest fault) : unescape (text ++ rest) = .error fault := by
  rw [unescape_append h hbroken.notOctal, unescape_broken hbroken]
  rfl

theorem unescape_eq_ok_iff {text value : List Char} :
    unescape text = .ok value ↔ Tokens text value := by
  constructor
  · intro h
    rcases tokens_or_broken text with
      ⟨decoded, htext⟩ | ⟨front, decoded, rest, fault, rfl, hfront, hbroken⟩
    · rw [unescape_of_tokens htext, Except.ok.injEq] at h
      rw [← h]
      exact htext
    · rw [unescape_of_broken hfront hbroken] at h
      cases h
  · exact unescape_of_tokens

theorem unescape_eq_error_iff {text : List Char} {fault : Fault} :
    unescape text = .error fault ↔
      ∃ front value rest, text = front ++ rest ∧ Tokens front value ∧ Broken rest fault := by
  constructor
  · intro h
    rcases tokens_or_broken text with
      ⟨decoded, htext⟩ | ⟨front, decoded, rest, found, rfl, hfront, hbroken⟩
    · rw [unescape_of_tokens htext] at h
      cases h
    · have hfound := unescape_of_broken hfront hbroken
      rw [hfound, Except.error.injEq] at h
      rw [← h]
      exact ⟨front, decoded, rest, rfl, hfront, hbroken⟩
  · rintro ⟨front, value, rest, rfl, hfront, hbroken⟩
    exact unescape_of_broken hfront hbroken

example : unescape "mus\\xe9o\\q\\101".toList = .ok "muséo\\qA".toList := by cbv

example : unescape "a\\ud83d".toList = .error .notScalar := by cbv

/-! ## 6. Names -/

theorem decode_eq_ok_iff {name decoded : String} :
    decode name = .ok decoded ↔ Tokens (narrow name.toList) decoded.toList := by
  rw [← unescape_eq_ok_iff, decode]
  cases unescape (narrow name.toList) with
  | error fault => simp
  | ok value =>
    rw [Except.ok.injEq, Except.ok.injEq]
    constructor
    · rintro rfl
      exact String.toList_ofList.symm
    · rintro rfl
      exact String.ofList_toList

theorem decode_eq_error_iff {name : String} {fault : Fault} :
    decode name = .error fault ↔ unescape (narrow name.toList) = .error fault := by
  rw [decode]
  cases unescape (narrow name.toList) with
  | error fault => simp
  | ok value => simp

/-- A value read from the digits of an escape, or from the first few of them, fits 32 bits. -/
theorem code_lt_of_mem_hexEscapes {letter : Char} {width : Nat} {fault : Fault}
    (h : (letter, width, fault) ∈ hexEscapes) {count code : Nat} (hcount : count ≤ width)
    {digits : List Char} (hcode : Text.readDigits? 16 0 (digits.take count) = some code) :
    code < 2 ^ 32 := by
  have hwidth : ∀ p ∈ hexEscapes, p.2.1 ≤ 8 := by decide
  have hlength : (digits.take count).length ≤ 8 :=
    (List.length_take_le _ _).trans (hcount.trans (hwidth _ h))
  have hlt := ((Text.readDigits?_zero_iff (by decide)).mp hcode).lt (by decide)
  calc code < 16 ^ (digits.take count).length := hlt
    _ ≤ 16 ^ 8 := Nat.pow_le_pow_right (by decide) hlength
    _ = 2 ^ 32 := by norm_num

/-- With each further octal digit the value stays below the next power of eight. -/
theorem octal_lt {count value bound : Nat} (hvalue : value < bound) (digits : List Char) :
    (octal count value digits).1 < bound * 8 ^ count := by
  fun_induction octal count value digits generalizing bound with
  | case1 => simpa using hvalue
  | case2 count value =>
    have hpow : 1 ≤ 8 ^ (count + 1) := Nat.one_le_pow _ _ (by decide)
    exact Nat.lt_of_lt_of_le hvalue (Nat.le_mul_of_pos_right _ hpow)
  | case3 count value c rest d hd ih =>
    have hd8 := ((Text.digitIn?_eq_some_iff (by decide)).mp hd).1
    have hnext : value * 8 + d < bound * 8 := by omega
    have hlt := ih hnext
    rwa [Nat.mul_assoc, ← Nat.pow_succ'] at hlt
  | case4 count value c rest =>
    have hpow : 1 ≤ 8 ^ (count + 1) := Nat.one_le_pow _ _ (by decide)
    exact Nat.lt_of_lt_of_le hvalue (Nat.le_mul_of_pos_right _ hpow)

theorem octal_isValidChar {c : Char} {d : Nat} (hd : Text.digitIn? 8 c = some d) {count : Nat}
    (hcount : count ≤ 2) (digits : List Char) :
    (octal count d digits).1 < 2 ^ 32 ∧ (octal count d digits).1.isValidChar := by
  have hd8 : d < 8 := ((Text.digitIn?_eq_some_iff (by decide)).mp hd).1
  have hlt : (octal count d digits).1 < 512 := by
    calc (octal count d digits).1 < 8 * 8 ^ count := octal_lt hd8 digits
      _ ≤ 8 * 8 ^ 2 := Nat.mul_le_mul_left _ (Nat.pow_le_pow_right (by decide) hcount)
      _ = 512 := by norm_num
  exact ⟨by omega, Or.inl (by omega)⟩

/-- A name can be decoded exactly if its text is a sequence of tokens, and then to their values; if
not, what breaks the first escape that is no token is the fault. The values that are read on the
way are words of 32 bits, and what octal digits name is always a character. -/
theorem decode_grammar (name : String) :
    ((∃ decoded, decode name = .ok decoded) ↔ ∃ value, Tokens (narrow name.toList) value) ∧
    (∀ decoded, decode name = .ok decoded ↔ Tokens (narrow name.toList) decoded.toList) ∧
    (∀ fault, decode name = .error fault ↔ ∃ front value rest,
      narrow name.toList = front ++ rest ∧ Tokens front value ∧ Broken rest fault) ∧
    (∀ letter width fault, hexWidth? letter = some (width, fault) → ∀ count ≤ width,
      ∀ (digits : List Char) (code : Nat),
        Text.readDigits? 16 0 (digits.take count) = some code → code < 2 ^ 32) ∧
    ∀ c d, Text.digitIn? 8 c = some d → ∀ count ≤ 2, ∀ digits,
      (octal count d digits).1 < 2 ^ 32 ∧ (octal count d digits).1.isValidChar := by
  refine ⟨⟨?_, ?_⟩, fun decoded => decode_eq_ok_iff, fun fault => ?_, ?_, ?_⟩
  · rintro ⟨decoded, h⟩
    exact ⟨decoded.toList, decode_eq_ok_iff.mp h⟩
  · rintro ⟨value, h⟩
    refine ⟨String.ofList value, decode_eq_ok_iff.mpr ?_⟩
    rw [String.toList_ofList]
    exact h
  · rw [decode_eq_error_iff, unescape_eq_error_iff]
  · intro letter width fault hletter count hcount digits code hcode
    exact code_lt_of_mem_hexEscapes (hexWidth?_eq_some_iff.mp hletter) hcount hcode
  · intro c d hd count hcount digits
    exact octal_isValidChar hd hcount digits

end MediaCatalog.Escape
