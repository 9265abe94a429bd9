import Mathlib.Data.List.DropRight
import Mathlib.Data.List.TakeWhile
import MediaCatalog.Proofs.Text.Lines
import MediaCatalog.Url.Basic

/-!
# Segments — what a name at the end of an address leads to

A name is put behind an address as text, and a client reads the whole as a URL. For most names that
is the URL of the address with the name as one more segment of its path (`parse_append_segment`). Not
so for a name with a character that ends a path, or one that leads out of it: of these nothing is said
here.
-/

namespace MediaCatalog.Url

/-! ## 1. Plain names -/

/-- A character that stands for itself in a path and ends no part of a URL. -/
def IsPlainChar (c : Char) : Prop :=
  0x20 < c.toNat ∧ c.toNat < 0x7F ∧
    c ∉ ['"', '#', '%', '/', '<', '>', '?', '\\', '`', '\x7b', '\x7d']

/-- A name that a path holds as it is. -/
structure IsPlainSegment (name : List Char) : Prop where
  chars : ∀ c ∈ name, IsPlainChar c
  notHere : name ≠ ['.']
  notAbove : name ≠ ['.', '.']

theorem IsPlainChar.ne {c d : Char} (h : IsPlainChar c)
    (hd : d ∈ ['"', '#', '%', '/', '<', '>', '?', '\\', '`', '\x7b', '\x7d']) : c ≠ d := by
  rintro rfl
  exact h.2.2 hd

theorem IsPlainChar.isSlash_eq {c : Char} (h : IsPlainChar c) (special : Bool) :
    isSlash special c = false := by
  have hslash : c ≠ '/' := h.ne (by simp)
  have hbackslash : c ≠ '\\' := h.ne (by simp)
  simp [isSlash, hslash, hbackslash]

theorem IsPlainChar.isEncodedInPath_eq {c : Char} (h : IsPlainChar c) :
    isEncodedInPath c = false := by
  obtain ⟨hlow, hhigh, hnone⟩ := h
  have hspace : c ≠ ' ' := by
    rintro rfl
    exact absurd hlow (by decide)
  simp only [List.mem_cons, List.not_mem_nil, or_false, not_or] at hnone
  have hcontrol : isControl c = false := by
    rw [isControl, Bool.or_eq_false_iff, decide_eq_false_iff_not, decide_eq_false_iff_not]
    omega
  simp [isEncodedInPath, isEncodedInFragment, hcontrol, hspace, hnone]

/-- Letters apart, a character is the only one with its small form. -/
theorem eq_of_toLower_eq {c d : Char} (h : c.toLower = d) (hd : d.isAlpha = false) : c = d := by
  have hsmall : d.isLower = false := (Bool.or_eq_false_iff.mp hd).2
  unfold Char.toLower at h
  split at h
  next hupper =>
    -- A capital letter has a small letter for its small form.
    have hlower : d.isLower = true := by
      rw [← h]
      refine Bool.and_eq_true_iff.mpr ⟨decide_eq_true ?_, decide_eq_true ?_⟩ <;>
        simp [UInt32.le_iff_toNat_le] at hupper ⊢ <;> omega
    rw [hsmall] at hlower
    cases hlower
  next => exact h

theorem map_toLower_eq (form : List Char) {name : List Char}
    (h : (String.ofList name).toLower = String.ofList form) : name.map Char.toLower = form := by
  have hlist : ((String.ofList name).map Char.toLower).toList = (String.ofList form).toList :=
    congrArg String.toList h
  rwa [String.toList_map, String.toList_ofList, String.toList_ofList] at hlist

theorem eq_of_map_toLower_eq {name form : List Char} (h : name.map Char.toLower = form)
    (hform : form.any Char.isAlpha = false) : name = form := by
  induction name generalizing form with
  | nil => exact h
  | cons c rest ih =>
    subst h
    rw [List.map_cons, List.any_cons, Bool.or_eq_false_iff] at hform
    rw [List.map_cons, ← eq_of_toLower_eq rfl hform.1, ← ih rfl hform.2]

namespace IsPlainSegment
variable {name : List Char}

/-- A dot may be written as a number, but then there is a percent sign. -/
theorem map_toLower_ne (h : IsPlainSegment name) {form : List Char} (hform : '%' ∈ form) :
    name.map Char.toLower ≠ form := by
  rintro rfl
  obtain ⟨c, hc, hlower⟩ := List.mem_map.mp hform
  exact (h.chars c hc).ne (by simp) (eq_of_toLower_eq hlower (by decide))

theorem isHere_eq (h : IsPlainSegment name) : isHere name = false := by
  refine decide_eq_false fun hmem => ?_
  simp only [List.mem_cons, List.not_mem_nil, or_false] at hmem
  rcases hmem with heq | heq
  · exact h.notHere (eq_of_map_toLower_eq (map_toLower_eq ['.'] heq) (by decide))
  · exact h.map_toLower_ne (by decide) (map_toLower_eq ['%', '2', 'e'] heq)

theorem isAbove_eq (h : IsPlainSegment name) : isAbove name = false := by
  refine decide_eq_false fun hmem => ?_
  simp only [List.mem_cons, List.not_mem_nil, or_false] at hmem
  rcases hmem with heq | heq | heq | heq
  · exact h.notAbove (eq_of_map_toLower_eq (map_toLower_eq ['.', '.'] heq) (by decide))
  · exact h.map_toLower_ne (by decide) (map_toLower_eq ['.', '%', '2', 'e'] heq)
  · exact h.map_toLower_ne (by decide) (map_toLower_eq ['%', '2', 'e', '.'] heq)
  · exact h.map_toLower_ne (by decide) (map_toLower_eq ['%', '2', 'e', '%', '2', 'e'] heq)

theorem percentEncode_eq (h : IsPlainSegment name) : percentEncode isEncodedInPath name = name := by
  have hkept : ∀ c ∈ name, (if isEncodedInPath c then percentEncodeChar c else [c]) = [c] :=
    fun c hc => if_neg (by rw [(h.chars c hc).isEncodedInPath_eq]; exact Bool.false_ne_true)
  rw [percentEncode, List.flatMap_def, List.map_congr_left hkept, ← List.flatMap_def,
    List.flatMap_singleton']

theorem segments_eq (h : IsPlainSegment name) (special : Bool) :
    segments special name = [name] := by
  have hkept : ∀ c ∈ name, (if isSlash special c then '/' else c) = c :=
    fun c hc => if_neg (by rw [(h.chars c hc).isSlash_eq]; exact Bool.false_ne_true)
  rw [segments, List.map_congr_left hkept, List.map_id']
  exact Text.splitAt_of_not_mem fun hslash => (h.chars _ hslash).ne (by simp) rfl

end IsPlainSegment

/-! ## 2. Paths -/

theorem walk_cons (done rest : List (List Char)) (segment : List Char) :
    walk false done (segment :: rest) =
      if isAbove segment then walk false (leave false done ++ if rest.isEmpty then [[]] else []) rest
      else if isHere segment then walk false (done ++ if rest.isEmpty then [[]] else []) rest
      else walk false (done ++ [percentEncode isEncodedInPath segment]) rest := by
  simp [walk]

/-- A plain name is one more segment of a path. -/
theorem walk_append {name last : List Char} (hname : IsPlainSegment name)
    (hlast : IsPlainSegment last) (done before : List (List Char)) :
    walk false done (before ++ [name, last]) = walk false done (before ++ [name]) ++ [last] := by
  induction before generalizing done with
  | nil =>
    simp [walk_cons, walk, hname.isAbove_eq, hname.isHere_eq, hname.percentEncode_eq,
      hlast.isAbove_eq, hlast.isHere_eq, hlast.percentEncode_eq]
  | cons segment before ih =>
    have hmore (rest : List (List Char)) : (before ++ name :: rest).isEmpty = false := by simp
    rw [List.cons_append, List.cons_append, walk_cons, walk_cons]
    simp only [hmore, Bool.false_eq_true, if_false, ih]
    split
    · rfl
    · split <;> rfl

theorem segments_append (special : Bool) (front rest : List Char) :
    segments special (front ++ '/' :: rest) = segments special front ++ segments special rest := by
  rw [segments, List.map_append, List.map_cons, ite_self, Text.splitAt_append_cons]
  rfl

/-- So it is in the text of the path, where the segment before it is plain as well. -/
theorem pathText_append {scheme : String} (hscheme : scheme ≠ "file") {name last front : List Char}
    (hname : IsPlainSegment name) (hlast : IsPlainSegment last) {before : List (List Char)}
    (hfront : segments (isSpecial scheme) front = before ++ [name]) :
    pathText scheme (front ++ '/' :: last) = pathText scheme front ++ String.ofList ('/' :: last) := by
  have hfile : (scheme == "file") = false := beq_eq_false_iff_ne.mpr hscheme
  have hsegments : segments (isSpecial scheme) (front ++ '/' :: last) = before ++ [name, last] := by
    rw [segments_append, hfront, hlast.segments_eq, List.append_assoc]
    rfl
  rw [pathText, pathText, hsegments, hfront, hfile, walk_append hname hlast, List.flatMap_append,
    String.ofList_append, List.flatMap_singleton]

theorem hostPath_append {scheme : String} (hscheme : scheme ≠ "file") {name last : List Char}
    (hname : IsPlainSegment name) (hlast : IsPlainSegment last) (front : List Char) :
    hostPath scheme (front ++ '/' :: (name ++ '/' :: last)) =
      hostPath scheme (front ++ '/' :: name) ++ String.ofList ('/' :: last) := by
  have hslash : isSlash (isSpecial scheme) '/' = true := rfl
  cases front with
  | nil =>
    rw [List.nil_append, List.nil_append, hostPath, hostPath, hslash]
    have hfront : segments (isSpecial scheme) name = [] ++ [name] := hname.segments_eq _
    exact pathText_append hscheme hname hlast hfront
  | cons c rest =>
    have hfront (start : List Char) : segments (isSpecial scheme) (start ++ '/' :: name) =
        segments (isSpecial scheme) start ++ [name] := by
      rw [segments_append, hname.segments_eq]
    rw [List.cons_append, List.cons_append, hostPath, hostPath]
    split
    · rw [← pathText_append hscheme hname hlast (hfront rest), List.append_assoc]
      rfl
    · have hmore := pathText_append hscheme hname hlast (hfront (c :: rest))
      rwa [List.append_assoc] at hmore

/-! ## 3. Whole URLs -/

section Stop
variable {α : Type} {p : α → Bool} {c : α} (hc : p c = false) (front rest : List α)
include hc

/-- What is taken from a list does not depend on what is behind an element that ends it. -/
theorem takeWhile_append_stop : (front ++ c :: rest).takeWhile p = front.takeWhile p := by
  induction front with
  | nil => rw [List.nil_append, List.takeWhile_cons, hc]; rfl
  | cons d front ih => rw [List.cons_append, List.takeWhile_cons, List.takeWhile_cons, ih]

theorem dropWhile_append_stop :
    (front ++ c :: rest).dropWhile p = front.dropWhile p ++ c :: rest := by
  induction front with
  | nil => rw [List.nil_append, List.dropWhile_cons, hc]; rfl
  | cons d front ih =>
    rw [List.cons_append, List.dropWhile_cons, List.dropWhile_cons, ih]
    split <;> rfl

end Stop

/-- There is neither a query nor a fragment. -/
def HasNoTail (chars : List Char) : Prop :=
  '?' ∉ chars ∧ '#' ∉ chars

theorem IsPlainSegment.hasNoTail {name : List Char} (h : IsPlainSegment name) : HasNoTail name :=
  ⟨fun hmem => (h.chars _ hmem).ne (by simp) rfl, fun hmem => (h.chars _ hmem).ne (by simp) rfl⟩

theorem HasNoTail.subset {front rest : List Char} (h : HasNoTail front) (hsubset : rest ⊆ front) :
    HasNoTail rest :=
  ⟨fun hmem => h.1 (hsubset hmem), fun hmem => h.2 (hsubset hmem)⟩

theorem HasNoTail.append {front rest : List Char} (hfront : HasNoTail front)
    (hrest : HasNoTail rest) : HasNoTail (front ++ '/' :: rest) := by
  simp only [HasNoTail, List.mem_append, List.mem_cons, not_or] at *
  exact ⟨⟨hfront.1, by decide, hrest.1⟩, hfront.2, by decide, hrest.2⟩

theorem cut_of_notMem {mark : Char} {chars : List Char} (h : mark ∉ chars) :
    cut mark chars = (chars, none) := by
  have hdrop : chars.dropWhile (· != mark) = [] :=
    List.dropWhile_eq_nil_iff.mpr fun c hc => bne_iff_ne.mpr fun heq => h (heq ▸ hc)
  rw [cut, hdrop]

theorem HasNoTail.splitTail_eq {chars : List Char} (h : HasNoTail chars) (scheme : String) :
    splitTail scheme chars = (chars, none, none) := by
  rw [splitTail, cut_of_notMem h.2]
  dsimp only
  rw [cut_of_notMem h.1]
  rfl

/-- The same URL with one more segment. -/
def below (last : List Char) (u : Url) : Url :=
  { u with path := u.path ++ String.ofList ('/' :: last) }

section Authority
variable {scheme : String} {front name last : List Char}

theorem ofAuthority_append (hscheme : scheme ≠ "file") (hfront : HasNoTail front)
    (hname : IsPlainSegment name) (hlast : IsPlainSegment last) :
    ofAuthority scheme (front ++ '/' :: (name ++ '/' :: last)) =
      (ofAuthority scheme (front ++ '/' :: name)).map (below last) := by
  have htail := hfront.append hname.hasNoTail
  have htail' := hfront.append (hname.hasNoTail.append hlast.hasNoTail)
  have htake (rest : List Char) : (front ++ '/' :: rest).takeWhile (!isSlash (isSpecial scheme) ·) =
      front.takeWhile (!isSlash (isSpecial scheme) ·) := takeWhile_append_stop rfl front rest
  have hdrop (rest : List Char) : (front ++ '/' :: rest).dropWhile (!isSlash (isSpecial scheme) ·) =
      front.dropWhile (!isSlash (isSpecial scheme) ·) ++ '/' :: rest :=
    dropWhile_append_stop rfl front rest
  have hsome (before rest : List Char) : (before ++ '/' :: rest).isEmpty = false := by simp
  unfold ofAuthority
  rw [htail.splitTail_eq, htail'.splitTail_eq]
  simp only [htake, hdrop, hsome, hostPath_append hscheme hname hlast]
  split
  · rfl
  · split
    · rfl
    · split
      · rfl
      · split <;> rfl

/-- What is made from an authority keeps the scheme, the query and the fragment. -/
theorem parts_of_ofAuthority {chars : List Char} {u : Url}
    (h : ofAuthority scheme chars = .ok u) :
    u.scheme = scheme ∧ (u.query, u.fragment) = (splitTail scheme chars).2 := by
  unfold ofAuthority at h
  dsimp only at h
  split at h
  · cases h
  · split at h
    · cases h
    · split at h
      · cases h
      · split at h
        · cases h
        · cases h
          exact ⟨rfl, rfl⟩

end Authority

/-- A scheme ends before the first slash. -/
theorem splitScheme?_append (front rest : List Char) :
    splitScheme? (front ++ '/' :: rest) =
      (splitScheme? front).map fun s => (s.1, s.2 ++ '/' :: rest) := by
  have htake : (front ++ '/' :: rest).takeWhile (fun c => c.isAlphanum || c ∈ ['+', '-', '.']) =
      front.takeWhile fun c => c.isAlphanum || c ∈ ['+', '-', '.'] :=
    takeWhile_append_stop (by decide) front rest
  unfold splitScheme?
  dsimp only
  rw [htake]
  generalize hname : front.takeWhile (fun c => c.isAlphanum || c ∈ ['+', '-', '.']) = name
  have hlength : name.length ≤ front.length := by
    rw [← hname]
    exact (List.takeWhile_sublist _).length_le
  rw [List.drop_append_of_le_length hlength]
  cases front.drop name.length with
  | nil => rfl
  | cons c more =>
    by_cases hc : c = ':'
    · subst hc
      cases name.head?.any Char.isAlpha <;> simp
    · simp [hc]

theorem subset_of_splitScheme? {chars rest : List Char} {scheme : String}
    (h : splitScheme? chars = some (scheme, rest)) : rest ⊆ chars := by
  unfold splitScheme? at h
  dsimp only at h
  split at h
  next more hdrop =>
    split at h
    next =>
      cases h
      intro c hc
      exact List.mem_of_mem_drop (hdrop ▸ List.mem_cons_of_mem _ hc)
    next => cases h
  next => cases h

/-- No character above the blank is dropped anywhere. -/
theorem cleaned_eq {text : String} {front rest : List Char}
    (htext : text.toList = front ++ '/' :: rest) (hrest : ∀ c ∈ rest, 0x20 < c.toNat) :
    cleaned text = (front.dropWhile (·.toNat ≤ 0x20)).filter (fun c => !(c ∈ ['\t', '\n', '\r'])) ++
      '/' :: rest := by
  have hkept : ∀ c ∈ '/' :: rest, 0x20 < c.toNat := List.forall_mem_cons.mpr ⟨by decide, hrest⟩
  have hstart : text.toList.dropWhile (·.toNat ≤ 0x20) =
      front.dropWhile (·.toNat ≤ 0x20) ++ '/' :: rest := by
    rw [htext]
    exact dropWhile_append_stop (by decide) front rest
  have hend : (((front.dropWhile (·.toNat ≤ 0x20) ++ '/' :: rest).reverse.dropWhile
      (·.toNat ≤ 0x20)).reverse) = front.dropWhile (·.toNat ≤ 0x20) ++ '/' :: rest := by
    refine List.rdropWhile_eq_self_iff.mpr fun hne hblank => ?_
    rw [List.getLast_append_of_ne_nil hne (List.cons_ne_nil _ _), decide_eq_true_eq] at hblank
    have hlast := hkept _ (List.getLast_mem (List.cons_ne_nil '/' rest))
    omega
  rw [cleaned, hstart, hend, List.filter_append]
  congr 1
  refine List.filter_eq_self.mpr fun c hc => ?_
  have hblank := hkept c hc
  have hne (d : Char) (hd : d.toNat ≤ 0x20) : c ≠ d := by
    rintro rfl
    omega
  simp [hne '\t' (by decide), hne '\n' (by decide), hne '\r' (by decide)]

/-- The slashes before a host are dropped, but none behind a name. -/
theorem exists_dropWhile_isSlash {middle front : List Char} (hmiddle : IsPlainSegment middle)
    (hne : middle ≠ []) (hfront : HasNoTail front) :
    ∃ start, HasNoTail start ∧ ∀ rest,
      (front ++ '/' :: (middle ++ '/' :: rest)).dropWhile (isSlash true) = start ++ '/' :: rest := by
  obtain ⟨c, more, rfl⟩ := List.exists_cons_of_ne_nil hne
  have hc : isSlash true c = false := (hmiddle.chars c List.mem_cons_self).isSlash_eq true
  refine ⟨(front ++ ['/']).dropWhile (isSlash true) ++ c :: more, ?_, fun rest => ?_⟩
  · refine (hfront.append hmiddle.hasNoTail).subset fun d hd => ?_
    rcases List.mem_append.mp hd with hd | hd
    · have := (List.dropWhile_sublist _).subset hd
      simp only [List.mem_append, List.mem_cons] at this ⊢
      tauto
    · exact List.mem_append_right _ (List.mem_cons_of_mem _ hd)
  · have hdrop := dropWhile_append_stop hc (front ++ ['/']) (more ++ '/' :: rest)
    simpa using hdrop

/-- A scheme of the web: it has a host by rule and is not that of a file. -/
def IsWeb (scheme : String) : Prop :=
  scheme = "http" ∨ scheme = "https"

theorem IsWeb.ne_file {scheme : String} (h : IsWeb scheme) : scheme ≠ "file" := by
  rcases h with rfl | rfl <;> decide

theorem IsWeb.isSpecial_eq {scheme : String} (h : IsWeb scheme) : isSpecial scheme = true := by
  rcases h with rfl | rfl <;> rfl

theorem parse_of_isWeb {text scheme : String} {more : List Char} (hweb : IsWeb scheme)
    (h : splitScheme? (cleaned text) = some (scheme, more)) :
    parse text = ofAuthority scheme (more.dropWhile (isSlash true)) := by
  have hfile : (scheme == "file") = false := beq_eq_false_iff_ne.mpr hweb.ne_file
  rw [parse, h]
  dsimp only
  rw [hfile, hweb.isSpecial_eq]
  rfl

theorem scheme_of_ofFile {chars : List Char} {u : Url} (h : ofFile chars = .ok u) :
    u.scheme = "file" := by
  unfold ofFile at h
  dsimp only at h
  split at h
  · split at h
    · split at h
      · cases h; rfl
      · split at h
        · cases h; rfl
        · split at h
          · cases h
          · cases h; rfl
          · cases h; rfl
    · cases h; rfl
  · cases h; rfl

theorem exists_scheme_of_parse {text : String} {u : Url} (h : parse text = .ok u) :
    ∃ more, splitScheme? (cleaned text) = some (u.scheme, more) := by
  unfold parse at h
  split at h
  next => cases h
  next scheme rest hscheme =>
    refine ⟨rest, ?_⟩
    split at h
    next hfile => rw [hscheme, scheme_of_ofFile h, beq_iff_eq.mp hfile]
    next =>
      split at h
      next => rw [hscheme, (parts_of_ofAuthority h).1]
      next =>
        split at h
        next => rw [hscheme, (parts_of_ofAuthority h).1]
        next =>
          cases h
          exact hscheme

/-- A plain name behind the address of something on the web stands for one more segment of its
path. -/
theorem parse_append_segment {text : String} {front middle name last : List Char} {u : Url}
    (htext : text.toList = front ++ '/' :: (middle ++ '/' :: name)) (hfront : HasNoTail front)
    (hmiddle : IsPlainSegment middle) (hne : middle ≠ []) (hname : IsPlainSegment name)
    (hlast : IsPlainSegment last) (hparse : parse text = .ok u)
    (hweb : IsWeb u.scheme) :
    parse (text ++ "/" ++ String.ofList last) = .ok (below last u) ∧
      u.query = none ∧ u.fragment = none := by
  have htext' : (text ++ "/" ++ String.ofList last).toList =
      front ++ '/' :: (middle ++ '/' :: (name ++ '/' :: last)) := by
    rw [String.toList_append, String.toList_append, htext, String.toList_ofList]
    simp
  have hlow : ∀ c ∈ middle ++ '/' :: (name ++ '/' :: last), 0x20 < c.toNat := by
    simp only [List.mem_append, List.mem_cons]
    rintro c (hc | rfl | hc | rfl | hc)
    · exact (hmiddle.chars c hc).1
    · decide
    · exact (hname.chars c hc).1
    · decide
    · exact (hlast.chars c hc).1
  have hlow' : ∀ c ∈ middle ++ '/' :: name, 0x20 < c.toNat := by
    refine fun c hc => hlow c ?_
    simp only [List.mem_append, List.mem_cons] at hc ⊢
    tauto
  have hclean := cleaned_eq htext hlow'
  have hclean' := cleaned_eq htext' hlow
  have hbegin : HasNoTail ((front.dropWhile (·.toNat ≤ 0x20)).filter
      fun c => !(c ∈ ['\t', '\n', '\r'])) :=
    hfront.subset fun c hc => (List.dropWhile_sublist _).subset (List.mem_of_mem_filter hc)
  generalize (front.dropWhile (·.toNat ≤ 0x20)).filter
    (fun c => !(c ∈ ['\t', '\n', '\r'])) = start at hclean hclean' hbegin
  obtain ⟨rest, hscheme⟩ := exists_scheme_of_parse hparse
  rw [hclean, splitScheme?_append, Option.map_eq_some_iff] at hscheme
  obtain ⟨⟨scheme, more⟩, hsplit, hpair⟩ := hscheme
  obtain ⟨rfl, rfl⟩ := Prod.mk.inj hpair
  obtain ⟨host, hhost, hdrop⟩ :=
    exists_dropWhile_isSlash hmiddle hne (hbegin.subset (subset_of_splitScheme? hsplit))
  rw [parse_of_isWeb hweb (by rw [hclean, splitScheme?_append, hsplit]; rfl), hdrop] at hparse
  rw [parse_of_isWeb hweb (by rw [hclean', splitScheme?_append, hsplit]; rfl), hdrop,
    ofAuthority_append hweb.ne_file hhost hname hlast, hparse]
  have htail := (parts_of_ofAuthority hparse).2
  rw [(hhost.append hname.hasNoTail).splitTail_eq] at htail
  exact ⟨rfl, Prod.mk.inj htail⟩

theorem text_below {u : Url} (hhost : u.host.isSome = true) (hquery : u.query = none)
    (hfragment : u.fragment = none) (last : List Char) :
    (below last u).text = u.text ++ "/" ++ String.ofList last := by
  obtain ⟨host, hhost⟩ := Option.isSome_iff_exists.mp hhost
  have hslash : String.ofList ('/' :: last) = "/" ++ String.ofList last := by
    rw [← String.toList_inj]
    simp
  simp only [text, below, authorityText, userText, hhost, hquery, hfragment, hslash,
    String.append_assoc, String.append_empty]

end MediaCatalog.Url
