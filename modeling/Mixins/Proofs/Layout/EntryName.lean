import Mixins.Layout
import Mixins.Proofs.NameBelow

/-!
# Names told by entry paths

The path of a type's entry is made from the name of the outermost type, with slashes for its dots
and the extension behind it. Read back, the extension is cut off and slashes become dots again.
Slashes in front are lost on the way, those that a dot in front of the name has become included, and
one that stood in the name comes back as a dot.

* `nameOfEntry_entryPath` — what a path is read back as.
* `nameOfEntry_entryPath_iff` — the outermost names that are given back.
* `entryPath_identifies` — an entry is shared by the names of one outermost type.
-/

namespace Mixins

open Mixins.Text

theorem Text.dropWordEnd_append (word text : List Char) :
    dropWordEnd word (text ++ word) = some text := by
  have hreversed : dropWord word.reverse (text ++ word).reverse = some text.reverse :=
    dropWord_eq_some_iff.2 List.reverse_append
  rw [dropWordEnd, hreversed, Option.map_some, List.reverse_reverse]

/-! ## The outermost name as a part of the name -/

namespace Name.Chars

theorem outermost_isPrefix (name : List Char) : outermost name <+: name :=
  ⟨separated (segments name), outermost_append_segments name⟩

theorem outermost_ne_nil {name : List Char} (h : name ≠ []) : outermost name ≠ [] := by
  have hwhole := package_append_simple name
  unfold outermost
  cases hs : simple name with
  | nil =>
    rw [hs, List.append_nil] at hwhole
    simpa [hwhole] using h
  | cons c rest => simp

theorem head?_outermost (name : List Char) : (outermost name).head? = name.head? := by
  by_cases hname : name = []
  · subst hname
    rfl
  · obtain ⟨c, rest, hs⟩ := List.exists_cons_of_ne_nil (outermost_ne_nil hname)
    obtain ⟨tail, htail⟩ := outermost_isPrefix name
    rw [hs] at htail
    rw [hs, ← htail]
    rfl

end Name.Chars

namespace Layout

variable {name other : String}

/-! ## Slashes for dots and dots for slashes -/

/-- What stands in an entry path for a character of a name. -/
def slashForDot (c : Char) : Char := if c = '.' then '/' else c

/-- What stands in a name for a character of an entry path. -/
def dotForSlash (c : Char) : Char := if c = '/' then '.' else c

theorem dotForSlash_slashForDot {c : Char} : dotForSlash (slashForDot c) = c ↔ c ≠ '/' := by
  by_cases hdot : c = '.'
  · simp [slashForDot, dotForSlash, hdot]
  · by_cases hslash : c = '/' <;> simp [slashForDot, dotForSlash, hdot, hslash]

/-- A text comes back from its slashes unless it had some of its own. -/
theorem map_dotForSlash_map_slashForDot {s : List Char} :
    (s.map slashForDot).map dotForSlash = s ↔ '/' ∉ s := by
  induction s with
  | nil => simp
  | cons c s ih =>
    rw [List.map_cons, List.map_cons, List.cons.injEq, ih, dotForSlash_slashForDot, List.mem_cons,
      not_or, ne_comm]

/-! ## Reading an entry path -/

/-- What an entry path has for a name before the extension, slashes in front left out. -/
def stem (outer : List Char) : List Char := (outer.map slashForDot).dropWhile (· = '/')

/-- **What a path is read back as**, if anything is left of the name. -/
theorem nameOfEntry_entryPath (name : String) : nameOfEntry (entryPath name) =
    if stem (Name.outermost name).toList = [] then none
    else some (String.ofList ((stem (Name.outermost name).toList).map dotForSlash)) := by
  have hpath : (entryPath name).toList =
      (Name.outermost name).toList.map slashForDot ++ '.' :: extension.toList := by
    simp [entryPath, slashForDot]
  have hdrop : (entryPath name).toList.dropWhile (· = '/') =
      stem (Name.outermost name).toList ++ '.' :: extension.toList := by
    rw [hpath, List.dropWhile_append, stem]
    split
    · rename_i hempty
      rw [List.isEmpty_iff.1 hempty]
      simp
    · rfl
  rw [nameOfEntry, hdrop, dropWordEnd_append, Option.bind_some]
  rfl

/-- A name comes back from its stem if nothing is lost in front and there is no slash in it. -/
theorem map_stem_iff {c : Char} {rest : List Char} :
    (stem (c :: rest)).map dotForSlash = c :: rest ↔ '/' ∉ c :: rest ∧ c ≠ '.' := by
  rw [stem, List.map_cons]
  by_cases hlost : slashForDot c = '/'
  · -- too few characters are left to make up the name
    rw [List.dropWhile_cons_of_pos (by simpa using hlost)]
    have hle := (List.dropWhile_suffix (· = '/') (l := rest.map slashForDot)).length_le
    rw [List.length_map] at hle
    refine iff_of_false (fun hsame => ?_) fun ⟨hslash, hdot⟩ => ?_
    · have hlength := congrArg List.length hsame
      rw [List.length_map, List.length_cons] at hlength
      omega
    · rw [slashForDot, if_neg hdot] at hlost
      exact hslash (hlost ▸ List.mem_cons_self)
  · have hdot : c ≠ '.' := by
      rintro rfl
      exact hlost rfl
    rw [List.dropWhile_cons_of_neg (by simpa using hlost), ← List.map_cons,
      map_dotForSlash_map_slashForDot, and_iff_left hdot]

/-- A name that a path can tell: it is not empty, has no slash and does not begin with a dot. -/
def IsEntryName (name : String) : Prop :=
  name ≠ "" ∧ '/' ∉ name.toList ∧ name.toList.head? ≠ some '.'

instance (name : String) : Decidable (IsEntryName name) :=
  inferInstanceAs (Decidable (_ ∧ _ ∧ _))

/-- **Which outermost names are given back** by their entry paths. -/
theorem nameOfEntry_entryPath_iff :
    nameOfEntry (entryPath name) = some (Name.outermost name) ↔
      IsEntryName (Name.outermost name) := by
  have hempty : Name.outermost name = "" ↔ (Name.outermost name).toList = [] :=
    String.toList_eq_nil_iff.symm
  rw [nameOfEntry_entryPath, IsEntryName, ne_eq, hempty, Option.ite_none_left_eq_some,
    Option.some.injEq, ← String.toList_inj, String.toList_ofList]
  cases (Name.outermost name).toList with
  | nil => simp [stem]
  | cons c rest =>
    have hhead : (c :: rest).head? ≠ some '.' ↔ c ≠ '.' := by simp
    rw [map_stem_iff, hhead]
    refine ⟨fun ⟨_, hslash, hdot⟩ => ⟨by simp, hslash, hdot⟩, fun ⟨_, hslash, hdot⟩ => ?_⟩
    refine ⟨fun hstem => ?_, hslash, hdot⟩
    have hback := map_stem_iff.2 ⟨hslash, hdot⟩
    rw [hstem] at hback
    cases hback

/-- The name of an outermost type is told if any name of a type in its file is. -/
theorem IsEntryName.outermost (h : IsEntryName name) : IsEntryName (Name.outermost name) := by
  obtain ⟨hne, hslash, hdot⟩ := h
  have houter : (Name.outermost name).toList = Name.Chars.outermost name.toList := by
    rw [Name.outermost, String.toList_ofList]
  have hchars : name.toList ≠ [] := by simpa using hne
  refine ⟨fun hempty => ?_, ?_, ?_⟩
  · refine Name.Chars.outermost_ne_nil hchars ?_
    rw [← houter, hempty]
    rfl
  · rw [houter]
    exact fun hmem => hslash ((Name.Chars.outermost_isPrefix name.toList).subset hmem)
  · rwa [houter, Name.Chars.head?_outermost]

/-- **Entries stand for outermost types.** The path of a name's entry is read back as the name of
the outermost type, which is its own outermost type. So two names share an entry just if they have
the same outermost type. -/
theorem entryPath_identifies (h : IsEntryName name) (hother : IsEntryName other) :
    nameOfEntry (entryPath name) = some (Name.outermost name) ∧
    Name.outermost (Name.outermost name) = Name.outermost name ∧
    (entryPath name = entryPath other ↔ Name.outermost name = Name.outermost other) := by
  have hread := nameOfEntry_entryPath_iff.2 h.outermost
  have hreadOther := nameOfEntry_entryPath_iff.2 hother.outermost
  refine ⟨hread, Name.outermost_outermost name, fun hpath => ?_, fun houter => ?_⟩
  · rw [hpath, hreadOther] at hread
    exact (Option.some.inj hread).symm
  · rw [entryPath, houter, entryPath]

/-- Types nested in one whose name has the extension, dots side by side and a dollar sign in it. -/
theorem entryPath_identifies_dots :
    (IsEntryName "a..ctype.$Ü$I" ∧ IsEntryName "a..ctype.$Ü$J$$K") ∧
    nameOfEntry (entryPath "a..ctype.$Ü$I") = some "a..ctype.$Ü" ∧
    entryPath "a..ctype.$Ü$I" = entryPath "a..ctype.$Ü$J$$K" := by
  have hname : IsEntryName "a..ctype.$Ü$I" := by decide
  have hother : IsEntryName "a..ctype.$Ü$J$$K" := by decide
  have houter : Name.outermost "a..ctype.$Ü$I" = "a..ctype.$Ü" := by decide
  have houterOther : Name.outermost "a..ctype.$Ü$J$$K" = "a..ctype.$Ü" := by decide
  obtain ⟨hread, -, hshared⟩ := entryPath_identifies hname hother
  rw [houter] at hread
  exact ⟨⟨hname, hother⟩, hread, hshared.2 (houter.trans houterOther.symm)⟩

end Layout

end Mixins
