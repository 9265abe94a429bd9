import MediaCatalog.Proofs.Tag.Spelling

/-!
# Joining — what stands behind a complete text is decoded by itself

A text that can be decoded is complete, and what is put behind it is decoded as if it stood alone.
One escape can reach across the joint: an octal escape with fewer than three digits at the very end
(`EndsInShortOctal`) goes on with the octal digits that follow it.
-/

namespace MediaCatalog.Escape

/-- An octal escape that could take one more digit. -/
def IsShortOctal (text : List Char) : Prop :=
  ∃ digits code, text = '\\' :: digits ∧ Text.IsNumeral 8 digits code ∧ 1 ≤ digits.length ∧
    digits.length < 3

/-- Behind a complete text stands such an escape. -/
def EndsInShortOctal (text : List Char) : Prop :=
  ∃ front value last, text = front ++ last ∧ Tokens (narrow front) value ∧ IsShortOctal last

/-! ## 1. Narrowing, seen from both ends of a text -/

theorem narrow_cons (c : Char) (text : List Char) :
    narrow (c :: text) = narrowChar c ++ narrow text :=
  List.flatMap_cons

theorem notOctal_narrow_iff {text : List Char} : NotOctal (narrow text) ↔ NotOctal text := by
  cases text with
  | nil => exact Iff.rfl
  | cons c text =>
    rw [narrow_cons]
    by_cases hc : c.toNat ≤ 0xFF
    · have hhead : (c :: narrow text).head? = (c :: text).head? := rfl
      rw [narrowChar_of_le hc, List.singleton_append, NotOctal, hhead]
      exact Iff.rfl
    · -- One text begins with a backslash, the other with a character far beyond the digits.
      obtain ⟨letter, _, _, digits, hescape, -⟩ := exists_narrowChar hc
      rw [hescape]
      refine iff_of_true (notOctal_backslash _) fun d hd hoctal => ?_
      obtain ⟨value, hvalue⟩ := hoctal
      have hlt := hvalue.toNat_lt (by decide)
      have hcd : c = d := Option.some.inj hd
      rw [← hcd] at hlt
      omega

/-- Every escape that narrowing makes brings a backslash with it. -/
theorem narrow_eq_self_of_not_mem {text : List Char} (h : '\\' ∉ narrow text) :
    narrow text = text := by
  induction text with
  | nil => rfl
  | cons c text ih =>
    rw [narrow_cons, List.mem_append, not_or] at h
    by_cases hc : c.toNat ≤ 0xFF
    · rw [narrow_cons, narrowChar_of_le hc, ih h.2, List.singleton_append]
    · obtain ⟨letter, _, _, digits, hescape, -⟩ := exists_narrowChar hc
      rw [hescape] at h
      exact absurd List.mem_cons_self h.1

theorem IsShortOctal.narrow_eq {text : List Char} (h : IsShortOctal text) : narrow text = text := by
  have hback : '\\'.toNat < 128 := by decide
  obtain ⟨digits, code, rfl, numeral, -⟩ := h
  exact narrow_eq_self (List.forall_mem_cons.mpr ⟨hback, numeral.toNat_lt (by decide)⟩)

/-- In the escape that narrowing makes of a character no octal digits follow a backslash. -/
theorem exists_not_isOctal_of_narrowChar {c : Char} (hc : ¬c.toNat ≤ 0xFF) {front back : List Char}
    (h : narrowChar c = front ++ '\\' :: back) : ∃ letter ∈ back, ¬IsOctal letter := by
  obtain ⟨letter, width, fault, digits, hescape, hletter, numeral, -⟩ := exists_narrowChar hc
  rw [hescape] at h
  cases front with
  | nil =>
    obtain ⟨-, rfl⟩ := List.cons.inj h
    refine ⟨letter, List.mem_cons_self, ?_⟩
    rw [isOctal_iff, (of_mem_hexEscapes hletter).2]
    decide
  | cons _ front =>
    -- There is no second backslash: neither the letter is one nor a digit.
    obtain ⟨-, hrest⟩ := List.cons.inj h
    have hplain := backslash_not_mem_of_mem_hexEscapes hletter numeral
    rw [hrest] at hplain
    exact absurd (List.mem_append_right _ List.mem_cons_self) hplain

/-- An octal escape at the end of a narrowed text has been there before. -/
theorem IsShortOctal.exists_of_narrow_eq {text front last : List Char} (hlast : IsShortOctal last)
    (h : narrow text = front ++ last) : ∃ before, text = before ++ last ∧ narrow before = front := by
  obtain ⟨digits, code, rfl, numeral, -⟩ := hlast
  -- By induction on the text: the backslash stands behind the first character, or belongs to it.
  induction text generalizing front with
  | nil => simp [narrow] at h
  | cons c text ih =>
    rw [narrow_cons] at h
    rcases List.append_eq_append_iff.mp h with ⟨more, rfl, htext⟩ | ⟨more, hfirst, hback⟩
    · obtain ⟨before, rfl, rfl⟩ := ih htext
      exact ⟨c :: before, rfl, narrow_cons c before⟩
    · cases more with
      | nil =>
        have hnil : narrow text = [] ++ '\\' :: digits := hback.symm
        obtain ⟨before, rfl, hbefore⟩ := ih hnil
        refine ⟨c :: before, rfl, ?_⟩
        rw [narrow_cons, hbefore, hfirst, List.append_nil, List.append_nil]
      | cons back more =>
        rw [List.cons_append] at hback
        obtain ⟨rfl, rfl⟩ := List.cons.inj hback
        by_cases hc : c.toNat ≤ 0xFF
        · have hplain := numeral.backslash_not_mem (by decide)
          rw [List.mem_append, not_or] at hplain
          rw [narrowChar_of_le hc] at hfirst
          obtain ⟨rfl, hone⟩ | ⟨_, hnone⟩ := List.singleton_eq_append_iff.mp hfirst
          · obtain ⟨rfl, rfl⟩ := List.cons.inj hone
            rw [narrow_eq_self_of_not_mem hplain.2]
            exact ⟨[], rfl, rfl⟩
          · cases hnone
        · obtain ⟨letter, hletter, hnot⟩ := exists_not_isOctal_of_narrowChar hc hfirst
          exact absurd (numeral.exists_digit letter (List.mem_append_left _ hletter)) hnot

theorem endsInShortOctal_iff {text : List Char} : EndsInShortOctal text ↔
    ∃ front value last, narrow text = front ++ last ∧ Tokens front value ∧ IsShortOctal last := by
  constructor
  · rintro ⟨front, value, last, rfl, hfront, hlast⟩
    refine ⟨narrow front, value, last, ?_, hfront, hlast⟩
    rw [narrow_append, hlast.narrow_eq]
  · rintro ⟨front, value, last, hnarrow, hfront, hlast⟩
    obtain ⟨before, rfl, rfl⟩ := hlast.exists_of_narrow_eq hnarrow
    exact ⟨before, value, last, rfl, hfront, hlast⟩

/-! ## 2. The joint between two texts -/

/-- The only token that minds what follows it is a short octal escape. -/
theorem Token.any_or_short {text value : List Char} (h : Token [] text value) :
    (∀ rest, Token rest text value) ∨ IsShortOctal text := by
  cases h with
  | plain h => exact Or.inl fun _ => .plain h
  | lineEnd => exact Or.inl fun _ => .lineEnd
  | simple h => exact Or.inl fun _ => .simple h
  | @octal digits code numeral atLeast atMost greedy =>
    by_cases hfull : digits.length = 3
    · exact Or.inl fun _ => .octal numeral atLeast atMost (Or.inl hfull)
    · exact Or.inr ⟨digits, code, rfl, numeral, atLeast, by omega⟩
  | hex h numeral length scalar => exact Or.inl fun _ => .hex h numeral length scalar
  | other h => exact Or.inl fun _ => .other h

/-- A complete text is decoded by itself whatever stands behind it, or it ends in a short octal
escape. -/
theorem Tokens.joins_or_short {text value : List Char} (h : Tokens text value) :
    (∀ rest, unescape (text ++ rest) = (unescape rest).map (value ++ ·)) ∨
      ∃ front value' last, text = front ++ last ∧ Tokens front value' ∧ IsShortOctal last := by
  induction h with
  | nil => exact Or.inl fun rest => unescape_plain_append List.not_mem_nil rest
  | @cons text value rest decoded token more ih =>
    rcases ih with hjoins | ⟨front, value', last, rfl, hfront, hlast⟩
    · -- Behind the first token stands the rest of the text, unless nothing is left of that.
      cases rest with
      | nil =>
        rcases token.any_or_short with hany | hshort
        · refine Or.inl fun back => ?_
          have hback := hjoins back
          rw [List.nil_append] at hback
          rw [List.append_nil, unescape_token (hany back), ← map_append_map, ← hback]
        · exact Or.inr ⟨[], [], text, List.append_nil _, .nil, hshort⟩
      | cons c rest =>
        refine Or.inl fun back => ?_
        have htoken : Token (c :: rest ++ back) text value := token.before fun h => h
        rw [List.append_assoc, unescape_token htoken, hjoins back, map_append_map]
    · have htoken : Token front text value := token.before NotOctal.of_append
      exact Or.inr ⟨text ++ front, _, last, (List.append_assoc _ _ _).symm, .cons htoken hfront,
        hlast⟩

/-- A short octal escape takes at least one of the octal digits behind it. -/
theorem IsShortOctal.exists_run {last rest : List Char} (hlast : IsShortOctal last)
    (hrest : ¬NotOctal rest) : ∃ run after c, rest = run ++ after ∧ run ≠ [] ∧ '\\' ∉ run ∧
      Token after (last ++ run) [c] := by
  obtain ⟨digits, code, rfl, numeral, atLeast, atMost⟩ := hlast
  obtain ⟨run, values, after, rfl, hrun, hlength, hgreedy⟩ :=
    exists_octal_run (3 - digits.length) rest
  have hmore : Text.IsNumeral 8 run _ := ⟨values, hrun, rfl⟩
  have hsum : (digits ++ run).length = digits.length + run.length := List.length_append
  have htoken : Token after ('\\' :: (digits ++ run)) [Char.ofNat _] :=
    .octal (numeral.append hmore) (by omega) (by omega) (hgreedy.imp_left (by omega))
  refine ⟨run, after, _, rfl, ?_, hmore.backslash_not_mem (by decide), htoken⟩
  rintro rfl
  rcases hgreedy with hfull | hnot
  · rw [List.length_nil] at hfull
    omega
  · exact hrest hnot

theorem IsShortOctal.exists_unescape {last : List Char} (hlast : IsShortOctal last) :
    ∃ c, unescape last = .ok [c] := by
  obtain ⟨digits, code, rfl, numeral, atLeast, atMost⟩ := hlast
  have htoken : Token [] ('\\' :: digits) [Char.ofNat code] :=
    .octal numeral atLeast (by omega) (Or.inr notOctal_nil)
  have hone := Tokens.cons htoken .nil
  rw [List.append_nil, List.append_nil] at hone
  exact ⟨_, unescape_of_tokens hone⟩

/-- Two texts whose joint no escape reaches across are decoded one after the other. -/
theorem Tokens.unescape_join {text value rest : List Char} (h : Tokens text value)
    (hjoin : NotOctal rest ∨ ¬∃ front value' last, text = front ++ last ∧ Tokens front value' ∧
      IsShortOctal last) : unescape (text ++ rest) = (unescape rest).map (value ++ ·) := by
  rcases hjoin with hrest | hlong
  · exact unescape_append h hrest
  · exact h.joins_or_short.resolve_right hlong rest

/-- Otherwise the first of the octal digits behind the joint are lost to the escape before it. -/
theorem Tokens.unescape_across {front value last rest : List Char} (hfront : Tokens front value)
    (hlast : IsShortOctal last) (hrest : ¬NotOctal rest) :
    ∃ run after c c', run ≠ [] ∧ unescape rest = (unescape after).map (run ++ ·) ∧
      unescape (front ++ last) = .ok (value ++ [c]) ∧
        unescape (front ++ last ++ rest) = (unescape after).map (value ++ [c'] ++ ·) := by
  obtain ⟨c, hc⟩ := hlast.exists_unescape
  obtain ⟨run, after, c', rfl, hne, hplain, htoken⟩ := hlast.exists_run hrest
  have hback (back : List Char) : NotOctal (last ++ back) := by
    obtain ⟨digits, code, rfl, -⟩ := hlast
    exact notOctal_backslash _
  refine ⟨run, after, c, c', hne, unescape_plain_append hplain after, ?_, ?_⟩
  · have hnil := hback []
    rw [List.append_nil] at hnil
    rw [unescape_append hfront hnil, hc]
    rfl
  · have hjoined : front ++ last ++ (run ++ after) = front ++ (last ++ run ++ after) := by
      rw [List.append_assoc, List.append_assoc]
    have hbegin : NotOctal (last ++ run ++ after) := by
      rw [List.append_assoc]
      exact hback _
    rw [hjoined, unescape_append hfront hbegin, unescape_token htoken, map_append_map]

/-- So the two are no longer decoded one after the other, although a fault stays what it is. -/
theorem Tokens.unescape_across_ne {text value front value' last rest : List Char}
    (h : Tokens text value) (htext : text = front ++ last) (hfront : Tokens front value')
    (hlast : IsShortOctal last) (hrest : ¬NotOctal rest) :
    (∀ fault, unescape rest = .error fault → unescape (text ++ rest) = .error fault) ∧
    ∀ decoded, unescape rest = .ok decoded →
      ∃ joined, unescape (text ++ rest) = .ok joined ∧ joined ≠ value ++ decoded := by
  obtain ⟨run, after, c, c', hne, hback, hfirst, hacross⟩ := hfront.unescape_across hlast hrest
  rw [← htext] at hfirst hacross
  have hvalue : value = value' ++ [c] := by
    rw [unescape_of_tokens h, Except.ok.injEq] at hfirst
    exact hfirst
  rw [hback, hacross, hvalue]
  cases unescape after with
  | error fault =>
    refine ⟨fun fault' hrest => hrest, fun decoded hrest => ?_⟩
    cases hrest
  | ok more =>
    refine ⟨fun fault hrest => ?_, fun decoded hrest => ⟨value' ++ [c'] ++ more, rfl, ?_⟩⟩
    · cases hrest
    · -- The digits that the escape has taken are missing.
      intro heq
      have hrun : run ++ more = decoded := Except.ok.inj hrest
      have hlength := congrArg List.length heq
      have hpos := List.length_pos_iff.mpr hne
      simp only [← hrun, List.length_append, List.length_singleton] at hlength
      omega

/-! ## 3. Names -/

theorem narrow_toList_append (u v : String) :
    narrow (u ++ v).toList = narrow u.toList ++ narrow v.toList := by
  rw [String.toList_append, narrow_append]

/-- Behind a name that can be decoded, a second one that cannot fails with the fault that it has
alone. If it can be decoded, both together can, and the result is that of the two one after the
other: always, but where the first ends in an octal escape with fewer than three digits and the
second begins with an octal digit. -/
theorem decode_joined (u v a : String) (hu : decode u = .ok a) :
    (∀ fault, decode v = .error fault → decode (u ++ v) = .error fault) ∧
    ∀ b, decode v = .ok b → ∃ joined, decode (u ++ v) = .ok joined ∧
      (joined = a ++ b ↔ NotOctal v.toList ∨ ¬EndsInShortOctal u.toList) := by
  rw [decode_eq_ok_iff] at hu
  simp only [decode_eq_error_iff, decode_eq_ok_iff, ← unescape_eq_ok_iff, narrow_toList_append]
  by_cases hjoin : NotOctal v.toList ∨ ¬EndsInShortOctal u.toList
  · have hsplit : unescape (narrow u.toList ++ narrow v.toList) =
        (unescape (narrow v.toList)).map (a.toList ++ ·) := by
      rw [← notOctal_narrow_iff, endsInShortOctal_iff] at hjoin
      exact hu.unescape_join hjoin
    refine ⟨fun fault hv => ?_, fun b hv => ⟨a ++ b, ?_, iff_of_true rfl hjoin⟩⟩
    · rw [hsplit, hv]
      rfl
    · rw [hsplit, hv, String.toList_append]
      rfl
  · have hboth := not_or.mp hjoin
    rw [← notOctal_narrow_iff, not_not, endsInShortOctal_iff] at hboth
    obtain ⟨hrest, front, value, last, hnarrow, hfront, hlast⟩ := hboth
    obtain ⟨hfault, hdecoded⟩ := hu.unescape_across_ne hnarrow hfront hlast hrest
    refine ⟨hfault, fun b hv => ?_⟩
    obtain ⟨joined, hjoined, hne⟩ := hdecoded _ hv
    refine ⟨String.ofList joined, ?_, iff_of_false (fun heq => hne ?_) hjoin⟩
    · rw [String.toList_ofList, hjoined]
    · rw [← String.toList_append, ← heq, String.toList_ofList]

/-- The escape at the end takes an octal digit, and not a letter. -/
theorem decode_joined_bell :
    decode "a\\7" = .ok "a\x07" ∧ decode ("a\\7" ++ "b") = .ok ("a\x07" ++ "b") ∧
      decode ("a\\7" ++ "1") ≠ .ok ("a\x07" ++ "1") := by
  have hbell : decode "a\\7" = .ok "a\x07" := by decide +kernel
  refine ⟨hbell, ?_, ?_⟩
  · have hb : decode "b" = .ok "b" := by decide +kernel
    have hletter : NotOctal "b".toList := by
      intro c hc
      cases hc
      rw [isOctal_iff]
      decide
    obtain ⟨joined, hjoined, hiff⟩ := (decode_joined "a\\7" "b" _ hbell).2 _ hb
    rw [hjoined, hiff.mpr (Or.inl hletter)]
  · have hone : decode "1" = .ok "1" := by decide +kernel
    have hdigit : ¬NotOctal "1".toList := fun h => h '1' rfl (isOctal_iff.mpr rfl)
    have hshort : EndsInShortOctal "a\\7".toList := by
      have hfront : Tokens (narrow ['a']) ['a'] := unescape_eq_ok_iff.mp (by decide +kernel)
      have hnumeral : Text.IsNumeral 8 ['7'] 7 := (Text.readDigits?_zero_iff (by decide)).mp rfl
      exact ⟨['a'], ['a'], ['\\', '7'], rfl, hfront, ['7'], 7, rfl, hnumeral, by decide, by decide⟩
    obtain ⟨joined, hjoined, hiff⟩ := (decode_joined "a\\7" "1" _ hbell).2 _ hone
    intro heq
    rw [hjoined, Except.ok.injEq] at heq
    exact (hiff.mp heq).elim hdigit fun h => h hshort

end MediaCatalog.Escape
