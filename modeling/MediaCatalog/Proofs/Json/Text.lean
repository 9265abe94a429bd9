import MediaCatalog.Proofs.Decimal.Text
import MediaCatalog.Proofs.Json.Quote

/-!
# Compact texts — a value is known by its text

Two values with the same compact text are the same value, members in the same order
(`text_injective`). Every value is told by its first character what it is, a string ends at its
quote, a container at its bracket, and a number where no character of a number follows.
-/

namespace MediaCatalog

namespace Number

/-! ## 1. Numbers -/

/-- The characters of which the texts of numbers are made. -/
def isNumberChar (c : Char) : Bool :=
  '0' ≤ c && c ≤ '9' || c == '.' || c == 'e' || c == '+' || c == '-'

/-- Nothing follows that would be taken for more of a number. -/
def Ends (rest : List Char) : Prop :=
  ∀ c ∈ rest.head?, isNumberChar c = false

theorem isNumberChar_of_range {c : Char} (h : 48 ≤ c.toNat ∧ c.toNat ≤ 57) :
    isNumberChar c = true := by
  have hlow : '0' ≤ c := UInt32.le_iff_toNat_le.mpr h.1
  have hhigh : c ≤ '9' := UInt32.le_iff_toNat_le.mpr h.2
  simp [isNumberChar, hlow, hhigh]

theorem isNumberChar_of_mem_decimal {d : Decimal} {c : Char} (h : c ∈ d.text) :
    isNumberChar c = true := by
  obtain hrange | hmark := d.denotes_text.mem h
  · exact isNumberChar_of_range hrange
  · have hmarks : ['.', 'e', '+', '-'].all isNumberChar = true := by decide
    exact List.all_eq_true.mp hmarks c hmark

theorem isNumberChar_of_mem {n : Number} {c : Char} (h : c ∈ n.text) : isNumberChar c = true := by
  have hwhole {m : Nat} (hc : c ∈ Text.decimalNumber m) : isNumberChar c = true :=
    isNumberChar_of_range ((Text.isNumeral_decimalNumber m).toNat_range c hc)
  match n with
  | .whole (.ofNat m) => exact hwhole h
  | .whole (.negSucc m) =>
    obtain rfl | h := List.mem_cons.mp h
    · rfl
    · exact hwhole h
  | .real x =>
    obtain ⟨-, rfl⟩ | h := Double.mem_text.mp h
    · rfl
    · exact isNumberChar_of_mem_decimal h

theorem whole_text_ne_real (n : Int) (x : Double) : (whole n).text ≠ (real x).text := by
  intro h
  obtain ⟨c, hc, hmark⟩ := x.shortest.exists_mark
  have hmem : c ∈ (whole n).text := h ▸ Double.mem_text.mpr (Or.inr hc)
  have hdigit {m : Nat} (hc : c ∈ Text.decimalNumber m) : False := by
    obtain rfl | rfl := hmark <;>
      exact (Text.isNumeral_decimalNumber m).not_mem (by decide) hc
  match n with
  | .ofNat m => exact hdigit hmem
  | .negSucc m =>
    obtain rfl | hmem := List.mem_cons.mp hmem
    · obtain hmark | hmark := hmark <;> cases hmark
    · exact hdigit hmem

theorem decimalNumber_ne_minus (n : Nat) (text : List Char) :
    Text.decimalNumber n ≠ '-' :: text := by
  intro h
  exact (Text.isNumeral_decimalNumber n).not_mem (c := '-') (by decide) (h ▸ List.mem_cons_self)

theorem text_injective {n m : Number} (h : n.text = m.text) : n = m := by
  match n, m with
  | .whole (.ofNat n), .whole (.ofNat m) => rw [Text.decimalNumber_injective h]
  | .whole (.ofNat n), .whole (.negSucc m) => exact absurd h (decimalNumber_ne_minus n _)
  | .whole (.negSucc n), .whole (.ofNat m) => exact absurd h.symm (decimalNumber_ne_minus m _)
  | .whole (.negSucc n), .whole (.negSucc m) =>
    have hn := Text.decimalNumber_injective (List.cons.inj h).2
    rw [Nat.add_right_cancel hn]
  | .whole n, .real x => exact absurd h (whole_text_ne_real n x)
  | .real x, .whole n => exact absurd h.symm (whole_text_ne_real n x)
  | .real x, .real y => rw [Double.text_injective h]

theorem text_ne_nil (n : Number) : n.text ≠ [] := by
  match n with
  | .whole (.ofNat m) => exact Text.decimalNumber_ne_nil m
  | .whole (.negSucc m) => exact List.cons_ne_nil _ _
  | .real x =>
    obtain ⟨c, hc, -⟩ := x.shortest.exists_mark
    exact List.ne_nil_of_mem (Double.mem_text.mpr (Or.inr hc))

theorem text_append_inj {n m : Number} {rest rest' : List Char} (hrest : Ends rest)
    (hrest' : Ends rest') (h : n.text ++ rest = m.text ++ rest') : n = m ∧ rest = rest' := by
  have htake {n : Number} {rest : List Char} (hrest : Ends rest) :
      (n.text ++ rest).takeWhile isNumberChar = n.text := by
    rw [List.takeWhile_append_of_pos fun c hc => isNumberChar_of_mem hc]
    cases rest with
    | nil => simp
    | cons c rest => simp [hrest c rfl]
  have htext : n.text = m.text := by rw [← htake hrest, h, htake hrest']
  rw [htext] at h
  exact ⟨text_injective htext, List.append_cancel_left h⟩

end Number

namespace Json

/-! ## 2. First characters -/

inductive Kind where
  | null | boolean | number | string | array | object

def kind : Json → Kind
  | .null => .null
  | .bool _ => .boolean
  | .number _ => .number
  | .string _ => .string
  | .array _ => .array
  | .object _ => .object

/-- What a value is that starts with a character; no value starts with a bracket that closes. -/
def kindOf? (c : Char) : Option Kind :=
  if c = 'n' then some .null
  else if c = 't' ∨ c = 'f' then some .boolean
  else if c = '"' then some .string
  else if c = '[' then some .array
  else if c = '\x7b' then some .object
  else if Number.isNumberChar c then some .number
  else none

theorem kindOf?_of_isNumberChar {c : Char} (h : Number.isNumberChar c = true) :
    kindOf? c = some .number := by
  have hne {d : Char} (hd : Number.isNumberChar d = false) : c ≠ d := by
    rintro rfl
    rw [h] at hd
    cases hd
  rw [kindOf?, if_neg (hne rfl), if_neg (not_or.mpr ⟨hne rfl, hne rfl⟩), if_neg (hne rfl),
    if_neg (hne rfl), if_neg (hne rfl), if_pos h]

theorem exists_first (v : Json) : ∃ c rest, v.compact = c :: rest ∧ kindOf? c = some v.kind := by
  match v with
  | .null => exact ⟨_, _, rfl, rfl⟩
  | .bool true => exact ⟨_, _, rfl, rfl⟩
  | .bool false => exact ⟨_, _, rfl, rfl⟩
  | .number n =>
    obtain ⟨c, rest, htext⟩ := List.exists_cons_of_ne_nil n.text_ne_nil
    have hc : c ∈ n.text := htext ▸ List.mem_cons_self
    exact ⟨c, rest, htext, kindOf?_of_isNumberChar (Number.isNumberChar_of_mem hc)⟩
  | .string s => exact ⟨_, _, rfl, rfl⟩
  | .array [] => exact ⟨_, _, rfl, rfl⟩
  | .array (v :: rest) => exact ⟨_, _, rfl, rfl⟩
  | .object [] => exact ⟨_, _, rfl, rfl⟩
  | .object ((k, v) :: rest) => exact ⟨_, _, rfl, rfl⟩

theorem kind_eq {v w : Json} {rest rest' : List Char}
    (h : v.compact ++ rest = w.compact ++ rest') : v.kind = w.kind := by
  obtain ⟨c, more, hv, hc⟩ := v.exists_first
  obtain ⟨d, more', hw, hd⟩ := w.exists_first
  rw [hv, hw] at h
  obtain ⟨rfl, -⟩ := List.cons.inj h
  exact Option.some.inj (hc.symm.trans hd)

theorem compact_array_cons_ne (v : Json) (vs : List Json) (rest rest' : List Char) :
    (array (v :: vs)).compact ++ rest ≠ (array []).compact ++ rest' := by
  obtain ⟨c, more, hv, hc⟩ := v.exists_first
  intro h
  simp only [compact, hv, List.cons_append] at h
  obtain ⟨rfl, -⟩ := List.cons.inj (List.cons.inj h).2
  cases hc

theorem ends_cons {c : Char} (h : Number.isNumberChar c = false) (rest : List Char) :
    Number.Ends (c :: rest) := by
  intro d hd
  rwa [← Option.some.inj hd]

theorem ends_items (vs : List Json) (rest : List Char) : Number.Ends (compactItems vs ++ rest) := by
  cases vs with
  | nil => exact ends_cons rfl _
  | cons v vs => exact ends_cons rfl _

theorem ends_members (ms : Members) (rest : List Char) :
    Number.Ends (compactMembers ms ++ rest) := by
  cases ms with
  | nil => exact ends_cons rfl _
  | cons m ms => exact ends_cons rfl _

/-! ## 3. Values -/

mutual

theorem compact_append_inj (v w : Json) {rest rest' : List Char} (hrest : Number.Ends rest)
    (hrest' : Number.Ends rest') (h : v.compact ++ rest = w.compact ++ rest') :
    v = w ∧ rest = rest' := by
  have hkind := kind_eq h
  match v with
  | .null =>
    cases w with
    | null => exact ⟨rfl, List.append_cancel_left h⟩
    | _ => cases hkind
  | .bool a =>
    cases w with
    | bool b =>
      cases a <;> cases b
      · exact ⟨rfl, List.append_cancel_left h⟩
      · cases h
      · cases h
      · exact ⟨rfl, List.append_cancel_left h⟩
    | _ => cases hkind
  | .number n =>
    cases w with
    | number m =>
      obtain ⟨rfl, hrests⟩ := Number.text_append_inj hrest hrest' h
      exact ⟨rfl, hrests⟩
    | _ => cases hkind
  | .string s =>
    cases w with
    | string t =>
      obtain ⟨rfl, hrests⟩ := quote_append_inj h
      exact ⟨rfl, hrests⟩
    | _ => cases hkind
  | .array vs =>
    cases w with
    | array ws =>
      match vs, ws with
      | [], [] => exact ⟨rfl, List.append_cancel_left h⟩
      | [], w :: ws => exact absurd h.symm (compact_array_cons_ne w ws _ _)
      | v :: vs, [] => exact absurd h (compact_array_cons_ne v vs _ _)
      | v :: vs, w :: ws =>
        -- The first item stands behind the bracket as all others stand behind their commas.
        have hitems := congrArg (List.cons ',') (List.cons.inj h).2
        obtain ⟨hvs, hrests⟩ := compactItems_append_inj (v :: vs) (w :: ws) hitems
        exact ⟨by rw [hvs], hrests⟩
    | _ => cases hkind
  | .object ms =>
    cases w with
    | object ns =>
      match ms, ns with
      | [], [] => exact ⟨rfl, List.append_cancel_left h⟩
      | [], (l, w) :: ns => cases (List.cons.inj h).2
      | (k, v) :: ms, [] => cases (List.cons.inj h).2
      | (k, v) :: ms, (l, w) :: ns =>
        have hmembers := congrArg (List.cons ',') (List.cons.inj h).2
        obtain ⟨hms, hrests⟩ := compactMembers_append_inj ((k, v) :: ms) ((l, w) :: ns) hmembers
        exact ⟨by rw [hms], hrests⟩
    | _ => cases hkind

theorem compactItems_append_inj (vs ws : List Json) {rest rest' : List Char}
    (h : compactItems vs ++ rest = compactItems ws ++ rest') : vs = ws ∧ rest = rest' := by
  match vs, ws with
  | [], [] => exact ⟨rfl, List.append_cancel_left h⟩
  | [], w :: ws => cases h
  | v :: vs, [] => cases h
  | v :: vs, w :: ws =>
    simp only [compactItems, List.cons_append, List.append_assoc, List.cons.injEq, true_and] at h
    obtain ⟨rfl, htail⟩ := compact_append_inj v w (ends_items vs _) (ends_items ws _) h
    obtain ⟨rfl, hrests⟩ := compactItems_append_inj vs ws htail
    exact ⟨rfl, hrests⟩

theorem compactMembers_append_inj (ms ns : Members) {rest rest' : List Char}
    (h : compactMembers ms ++ rest = compactMembers ns ++ rest') : ms = ns ∧ rest = rest' := by
  match ms, ns with
  | [], [] => exact ⟨rfl, List.append_cancel_left h⟩
  | [], (l, w) :: ns => cases h
  | (k, v) :: ms, [] => cases h
  | (k, v) :: ms, (l, w) :: ns =>
    simp only [compactMembers, List.cons_append, List.append_assoc, List.cons.injEq, true_and] at h
    obtain ⟨rfl, hcolon⟩ := quote_append_inj h
    obtain ⟨rfl, htail⟩ := compact_append_inj v w (ends_members ms _) (ends_members ns _)
      (List.cons.inj hcolon).2
    obtain ⟨rfl, hrests⟩ := compactMembers_append_inj ms ns htail
    exact ⟨rfl, hrests⟩

end

/-- The compact text tells all values apart, also by the order of their members. -/
theorem text_injective {v w : Json} (h : v.text = w.text) : v = w := by
  have hends : Number.Ends [] := by simp [Number.Ends]
  exact (compact_append_inj v w hends hends (by simpa using String.ofList_injective h)).1

end Json

end MediaCatalog
