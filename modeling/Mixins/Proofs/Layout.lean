import Mathlib.Data.List.Basic
import Mixins.Layout
import Mixins.Proofs.FileTree.Below
import Mixins.Proofs.OutermostName
import Mixins.Proofs.Path

/-!
# Where type files lie

Below a directory, the files of types with plain names lie apart from each other, and their
temporary siblings lie apart from all of them.

* `IsPlain` — names that are made of segments without slashes.
* `below_fileIn`, `below_temporary` — the names on the way to a type file and to its sibling.
* `namesTo_inj` — each name has its own way.
-/

namespace Mixins.Layout

open FileTree (Below names)
open Mixins.Path (IsSegment IsFileName)

variable {root : Path} {name other : String}

instance (segment : List Char) : Decidable (IsSegment segment) :=
  decidable_of_iff (segment ≠ [] ∧ '/' ∉ segment ∧ '.' ∉ segment)
    ⟨fun ⟨nonempty, slash, dot⟩ => ⟨nonempty, slash, dot⟩, fun h => ⟨h.nonempty, h.slash, h.dot⟩⟩

/-- The segments of the name of the type's file. -/
def segments (name : String) : List (List Char) := (Name.outermost name).toList.splitOn '.'

/-- Whether the directories and the file of the type are named by the segments of its name. -/
def IsPlain (name : String) : Prop := ∀ segment ∈ segments name, IsSegment segment

instance (name : String) : Decidable (IsPlain name) :=
  inferInstanceAs (Decidable (∀ segment ∈ segments name, IsSegment segment))

theorem isPlain_outermost : IsPlain (Name.outermost name) ↔ IsPlain name := by
  unfold IsPlain segments
  rw [Name.outermost_outermost]

/-- The names of the directories, and of a file with the extension, that are named by segments. -/
def wayTo (segments : List (List Char)) (extension : List Char) : List String :=
  segments.dropLast.map String.ofList ++
    [String.ofList (segments.getLast?.getD [] ++ '.' :: extension)]

theorem dropLast_append {segments : List (List Char)} (h : segments ≠ []) :
    segments.dropLast ++ [segments.getLast?.getD []] = segments := by
  rw [List.getLast?_eq_getLast_of_ne_nil h, Option.getD_some, List.dropLast_concat_getLast]

theorem getLast_mem {segments : List (List Char)} (h : segments ≠ []) :
    segments.getLast?.getD [] ∈ segments := by
  rw [List.getLast?_eq_getLast_of_ne_nil h, Option.getD_some]
  exact List.getLast_mem h

theorem wayTo_inj {ss ss' : List (List Char)} {extension extension' : List Char} (hne : ss ≠ [])
    (hne' : ss' ≠ []) (h : ∀ segment ∈ ss, IsSegment segment)
    (hdot : '.' ∉ extension) (hsame : wayTo ss extension = wayTo ss' extension') :
    ss = ss' ∧ extension = extension' := by
  unfold wayTo at hsame
  obtain ⟨hinit, hlast⟩ := List.append_inj' hsame (by simp)
  have hinit' : ss.dropLast = ss'.dropLast :=
    List.map_injective_iff.2 (fun _ _ => String.ofList_inj.1) hinit
  obtain ⟨hlast', -, hextension⟩ := (List.append_cons_inj_of_notMem
    (h _ (getLast_mem hne)).dot hdot).1 (String.ofList_inj.1 (List.cons.inj hlast).1)
  refine ⟨?_, hextension⟩
  rw [← dropLast_append hne, ← dropLast_append hne', hinit', hlast']

/-- The names on the way from a module's directory to a file that has the type's name and the
extension. -/
def namesTo (name : String) (extension : List Char) : List String :=
  wayTo (segments name) extension

theorem segments_ne_nil (name : String) : segments name ≠ [] := List.splitOn_ne_nil _ _

theorem namesTo_ne_nil (name : String) (extension : List Char) : namesTo name extension ≠ [] := by
  simp [namesTo, wayTo]

/-- The segments tell the name of the outermost type. -/
theorem outermost_of_segments (h : segments name = segments other) :
    Name.outermost name = Name.outermost other := by
  have hjoined : ∀ n, ['.'].intercalate (segments n) = (Name.outermost n).toList :=
    fun n => List.intercalate_splitOn '.'
  exact String.toList_inj.1 (by rw [← hjoined name, ← hjoined other, h])

/-- **Each name has its own way.** -/
theorem namesTo_inj (h : IsPlain name) {extension extension' : List Char} (hdot : '.' ∉ extension)
    (hsame : namesTo name extension = namesTo other extension') :
    Name.outermost name = Name.outermost other ∧ extension = extension' := by
  obtain ⟨hsegments, hextension⟩ :=
    wayTo_inj (segments_ne_nil name) (segments_ne_nil other) h hdot hsame
  exact ⟨outermost_of_segments hsegments, hextension⟩

/-! ## The way to a file -/

theorem isAbsolute_ofList {segment : List Char} (h : '/' ∉ segment) :
    Path.isAbsolute ⟨String.ofList segment⟩ = false := by
  rw [Path.isAbsolute, String.toList_ofList]
  cases segment with
  | nil => rfl
  | cons c rest =>
    have hc : c ≠ '/' := fun hc => h (hc ▸ List.mem_cons_self)
    simp [hc]

theorem names_ofList {segment : List Char} (hslash : '/' ∉ segment) (hempty : segment ≠ []) :
    names ⟨String.ofList segment⟩ = [String.ofList segment] := by
  rw [names, String.toList_ofList, List.splitOn_eq_singleton hslash]
  simp [hempty]

/-- A file name goes neither up nor nowhere. -/
theorem ordinary_ofList {name : List Char} (h : IsFileName name) :
    String.ofList name ≠ "." ∧ String.ofList name ≠ ".." := by
  constructor
  · intro heq
    exact h.dot (by rw [← String.toList_ofList (l := name), heq]; rfl)
  · intro heq
    exact h.dots (by rw [← String.toList_ofList (l := name), heq]; rfl)

/-- The directory that is named by the segments. -/
theorem directory_names (segments : List (List Char)) (h : ∀ segment ∈ segments, IsSegment segment)
    (start : Path) :
    names (segments.foldl (fun path segment => path.join ⟨String.ofList segment⟩) start) =
        names start ++ segments.map String.ofList ∧
      (segments.foldl (fun path segment => path.join ⟨String.ofList segment⟩) start).isAbsolute =
        start.isAbsolute := by
  induction segments generalizing start with
  | nil => exact ⟨by simp, rfl⟩
  | cons segment segments ih =>
    obtain ⟨hsegment, hrest⟩ := List.forall_mem_cons.1 h
    have hrelative := isAbsolute_ofList hsegment.slash
    obtain ⟨hnames, habsolute⟩ := ih hrest (start.join ⟨String.ofList segment⟩)
    rw [List.foldl_cons, hnames, habsolute, Path.names_join start hrelative,
      names_ofList hsegment.slash hsegment.nonempty, Path.isAbsolute_join start hrelative]
    exact ⟨by simp, rfl⟩

/-- The file has the last segment of the name, after the path that is made of the others. -/
theorem filePath_join (h : IsPlain name) : filePath name =
    ((segments name).dropLast.foldl (fun path segment => path.join ⟨String.ofList segment⟩)
      Path.empty).join
        ⟨String.ofList ((segments name).getLast?.getD [] ++ '.' :: extension.toList)⟩ := by
  have hpath : filePath name =
      ((segments name).foldl (fun path segment => path.join ⟨String.ofList segment⟩)
        Path.empty).setExtension extension :=
    rfl
  have hsegments := dropLast_append (segments_ne_nil name)
  rw [hpath, ← hsegments, List.foldl_concat, hsegments,
    Path.setExtension_join _ (h _ (getLast_mem (segments_ne_nil name))) (by decide) (by decide)]

/-- The file of a type has the last segment of the name, and it lies in the directory that is named
by the others. -/
theorem fileIn_eq (root : Path) (h : IsPlain name) : ∃ dir : Path,
    names dir = names root ++ (segments name).dropLast.map String.ofList ∧
    dir.isAbsolute = root.isAbsolute ∧
    fileIn root name =
      dir.join ⟨String.ofList ((segments name).getLast?.getD [] ++ '.' :: extension.toList)⟩ := by
  obtain ⟨hnames, habsolute⟩ := directory_names (segments name).dropLast
    (fun _ hmem => h _ ((List.dropLast_sublist _).subset hmem)) Path.empty
  have hempty : names Path.empty = [] := by decide
  have hrelative : Path.empty.isAbsolute = false := by decide
  rw [hempty, List.nil_append] at hnames
  rw [hrelative] at habsolute
  have hfile : '/' ∉ (segments name).getLast?.getD [] ++ '.' :: extension.toList :=
    ((h _ (getLast_mem (segments_ne_nil name))).append (by decide)).slash
  refine ⟨root.join ((segments name).dropLast.foldl
    (fun path segment => path.join ⟨String.ofList segment⟩) Path.empty), ?_, ?_, ?_⟩
  · rw [Path.names_join root habsolute, hnames]
  · exact Path.isAbsolute_join root habsolute
  · rw [fileIn, filePath_join h, Path.join_join root habsolute (isAbsolute_ofList hfile)]

theorem below_join {dir : Path} {segments : List (List Char)} (hne : segments ≠ [])
    (h : ∀ segment ∈ segments, IsSegment segment)
    (hdir : names dir = names root ++ segments.dropLast.map String.ofList)
    (habsolute : dir.isAbsolute = root.isAbsolute) {extension : List Char}
    (hslash : '/' ∉ extension) :
    Below root (dir.join ⟨String.ofList (segments.getLast?.getD [] ++ '.' :: extension)⟩)
      (wayTo segments extension) := by
  have hfile := (h _ (getLast_mem hne)).append hslash
  have hrelative := isAbsolute_ofList hfile.slash
  refine ⟨?_, by rw [Path.isAbsolute_join dir hrelative, habsolute], fun n hn => ?_⟩
  · rw [Path.names_join dir hrelative, hdir, names_ofList hfile.slash hfile.nonempty, wayTo,
      List.append_assoc]
  · rw [wayTo, List.mem_append, List.mem_map, List.mem_singleton] at hn
    obtain ⟨segment, hsegment, rfl⟩ | rfl := hn
    · exact ordinary_ofList (h _ ((List.dropLast_sublist _).subset hsegment)).isFileName
    · exact ordinary_ofList hfile

/-- **The way to a type's file.** -/
theorem below_fileIn (root : Path) (h : IsPlain name) :
    Below root (fileIn root name) (namesTo name extension.toList) := by
  obtain ⟨dir, hdir, habsolute, hfile⟩ := fileIn_eq root h
  rw [hfile]
  exact below_join (segments_ne_nil name) h hdir habsolute (by decide)

/-- **The way to the temporary sibling of a type's file.** -/
theorem below_temporary (root : Path) (h : IsPlain name) :
    Below root (Path.temporary (fileIn root name))
      (namesTo name (extension.toList ++ ".tmp".toList)) := by
  obtain ⟨dir, hdir, habsolute, hfile⟩ := fileIn_eq root h
  have hlast := h _ (getLast_mem (segments_ne_nil name))
  rw [hfile, Path.temporary_join dir hlast (by decide) (by decide)]
  exact below_join (segments_ne_nil name) h hdir habsolute (by decide)

end Mixins.Layout
