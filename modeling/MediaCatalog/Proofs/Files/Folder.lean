import MediaCatalog.Files.Folder
import MediaCatalog.Proofs.Text.Lines

/-!
# Folders — what writing a file changes, and where a name in a directory leads

A folder is known by its look-up: a write puts one file in its place and leaves all others
(`Folder.write_eq_ok`). Where a file of a directory lies does not depend on how the directory is
spelled (`place_join`), so that files of different names are different files.
-/

namespace MediaCatalog

/-! ## 1. Paths -/

namespace Path

/-- A name that a path holds as it is. -/
structure IsPlain (name : String) : Prop where
  noSlash : '/' ∉ name.toList
  notHere : name ≠ "" ∧ name ≠ "."
  notBack : name ≠ ".."

theorem IsPlain.names_eq {name : String} (h : IsPlain name) : names name = [name] := by
  rw [names, Text.splitAt_of_not_mem h.noSlash, List.map_singleton, String.ofList_toList]

theorem IsPlain.step_eq {name : String} (h : IsPlain name) (path : Path) :
    step path name = path ++ [name] := by
  rw [step, if_neg (by simp [h.notHere]), if_neg h.notBack]

theorem IsPlain.not_startsWith {name : String} (h : IsPlain name) :
    name.startsWith "/" = false := by
  rw [String.startsWith_string_eq_false_iff]
  rintro ⟨rest, hrest⟩
  exact h.noSlash (hrest ▸ by simp)

theorem isAbsolute_append {directory : String} (h : directory ≠ "") (rest : String) :
    isAbsolute (directory ++ rest) = isAbsolute directory := by
  obtain ⟨c, cs, hcs⟩ := List.exists_cons_of_ne_nil (mt String.toList_eq_nil_iff.mp h)
  rw [isAbsolute, isAbsolute, Bool.eq_iff_iff, String.startsWith_string_iff,
    String.startsWith_string_iff, String.toList_append, hcs]
  simp

/-- The last names on a path below a directory. -/
theorem names_join {name : String} (h : IsPlain name) {directory : String} (hne : directory ≠ "") :
    ∃ front, names (join directory name) = front ++ [name] ∧
      (names directory = front ∨ names directory = front ++ [""]) := by
  have hjoin : join directory name =
      if directory.endsWith "/" then directory ++ name else directory ++ "/" ++ name := by
    rw [join, h.not_startsWith, Bool.false_or, if_neg (by simpa using hne)]
  have hname := h.names_eq
  rw [names] at hname
  rw [hjoin]
  -- A directory that ends with a slash has an empty last name. It is no step on the way.
  split
  next hends =>
    obtain ⟨front, hfront⟩ : "/".toList <:+ directory.toList := by
      simpa [← String.endsWith_toSlice] using hends
    refine ⟨(Text.splitAt '/' front).map String.ofList, ?_, Or.inr ?_⟩
    · rw [names, String.toList_append, ← hfront, ← hname, ← List.map_append]
      show (Text.splitAt '/' (front ++ ['/'] ++ name.toList)).map _ = _
      rw [List.append_assoc, List.singleton_append, Text.splitAt_append_cons]
    · rw [names, ← hfront]
      show (Text.splitAt '/' (front ++ '/' :: [])).map _ = _
      rw [Text.splitAt_append_cons, List.map_append]
      rfl
  next =>
    refine ⟨names directory, ?_, Or.inl rfl⟩
    rw [names, String.toList_append, String.toList_append, ← hname, names, ← List.map_append]
    show (Text.splitAt '/' (directory.toList ++ ['/'] ++ name.toList)).map _ = _
    rw [List.append_assoc, List.singleton_append, Text.splitAt_append_cons]

end Path

namespace Folder

theorem place_join {name : String} (h : Path.IsPlain name) (directory : String) (f : Folder) :
    f.place (Path.join directory name) = f.place directory ++ [name] := by
  by_cases hne : directory = ""
  · have hjoin : Path.join directory name = name := by
      rw [Path.join, if_pos (by simp [hne])]
    have habsolute : Path.isAbsolute name = false := h.not_startsWith
    rw [hjoin, hne, place, h.names_eq, List.foldl_cons, List.foldl_nil, h.step_eq, origin,
      habsolute]
    rfl
  · have horigin : f.origin (Path.join directory name) = f.origin directory := by
      have hroot : Path.isAbsolute (Path.join directory name) = Path.isAbsolute directory := by
        rw [Path.join, h.not_startsWith, Bool.false_or, if_neg (mt String.isEmpty_iff.mp hne)]
        split
        · rw [Path.isAbsolute_append hne]
        · rw [String.append_assoc, Path.isAbsolute_append hne]
      rw [origin, origin, hroot]
    obtain ⟨front, hjoin, hfront | hfront⟩ := Path.names_join h hne
    · rw [place, place, horigin, hjoin, hfront, List.foldl_append, List.foldl_cons,
        List.foldl_nil, h.step_eq]
    · rw [place, place, horigin, hjoin, hfront, List.foldl_append, List.foldl_append,
        List.foldl_cons, List.foldl_nil, h.step_eq]
      rfl

theorem place_congr {f f' : Folder} (h : f'.current = f.current) (text : String) :
    f'.place text = f.place text := by
  rw [place, place, origin, origin, h]

/-! ## 2. Writing -/

theorem lookup_put (path p : Path) (contents : ByteArray) (files : List (Path × ByteArray)) :
    (put path contents files).lookup p =
      if p = path then some contents else files.lookup p := by
  induction files with
  | nil =>
    rw [put, List.lookup_cons]
    by_cases hp : p = path
    · rw [if_pos hp, hp, beq_self_eq_true]
    · rw [if_neg hp, beq_false_of_ne hp]
  | cons entry rest ih =>
    obtain ⟨q, old⟩ := entry
    rw [put]
    by_cases hq : q = path
    · rw [if_pos hq, List.lookup_cons, List.lookup_cons, hq]
      by_cases hp : p = path
      · rw [if_pos hp, hp, beq_self_eq_true]
      · rw [if_neg hp, beq_false_of_ne hp]
    · rw [if_neg hq, List.lookup_cons, List.lookup_cons, ih]
      by_cases hp : p = path
      · rw [if_pos hp, if_pos hp, hp, beq_false_of_ne (Ne.symm hq)]
      · rw [if_neg hp, if_neg hp]

theorem makeDirectory_eq_ok {path : Path} {f f' : Folder} (h : f.makeDirectory path = .ok f') :
    f'.files = f.files ∧ f'.current = f.current := by
  unfold makeDirectory at h
  split at h
  · cases h
  · split at h
    · cases h
    · cases h
      exact ⟨rfl, rfl⟩

theorem write_eq_ok {path : Path} {contents : ByteArray} {f f' : Folder}
    (h : f.write path contents = .ok f') :
    f'.current = f.current ∧
      ∀ p, f'.file? p = if p = path then some contents else f.file? p := by
  unfold write at h
  split at h
  · cases h
  · split at h
    · cases h
    · split at h
      · cases h
      · cases h
        exact ⟨rfl, fun p => lookup_put path p contents f.files⟩

end Folder

end MediaCatalog
