import Mixins.Layout
import Mixins.Proofs.Path.LastPiece

/-!
# The components of a path below another

Names that are put after a path, each below the one before, are its last components, however the
path is written that they are put after. So the package of a directory that is reached by names from
a module's directory is the names with dots between them.

* `components_join_name`, `components_joinAll` — the components of such a path.
* `packageOf_joinAll` — the package of such a directory.
* `namespaceDir_eq`, `isFileName_namespaceParts` — the directory of a namespace is one.
-/

namespace Mixins

namespace Path

/-- The path with names after it, each below the one before. -/
def joinAll (path : Path) (names : List String) : Path :=
  names.foldl (fun path name => path.join ⟨name⟩) path

theorem joinAll_append (path : Path) (names more : List String) :
    path.joinAll (names ++ more) = (path.joinAll names).joinAll more :=
  List.foldl_append

/-- What ends in a slash ends in an empty piece. -/
theorem parts_of_ends {start : List Char} (h : IsFront start) :
    ∃ pieces, (parts ⟨String.ofList start⟩).2 = pieces ++ [[]] := by
  have hlast : ∀ body : List Char, IsFront body →
      ∃ pieces, body.splitOn '/' = pieces ++ [[]] := fun _ hbody =>
    ⟨_, by simpa using splitOn_append_name hbody (List.not_mem_nil (a := '/'))⟩
  unfold parts
  rw [String.toList_ofList]
  split
  · exact hlast _ h.tail
  · rcases h with h | ⟨before, h⟩
    · cases h
    · have hdot := congrArg List.getLast? h
      simp at hdot
  · rename_i body
    obtain ⟨pieces, hpieces⟩ := hlast _ h.tail.tail
    exact ⟨[] :: pieces, by rw [hpieces, List.cons_append]⟩
  · exact hlast _ h

/-- A slash at the end makes no component. -/
theorem components_append_slash {text : List Char} (h : text ≠ []) :
    components ⟨String.ofList (text ++ ['/'])⟩ = components ⟨String.ofList text⟩ := by
  by_cases hdot : text = ['.']
  · subst hdot
    rfl
  · have hidle : [[]].filter (!isIdle ·) = [] := rfl
    simp only [components, parts_append_slash h hdot, List.filter_append, hidle, List.append_nil]

theorem components_lead (text : List Char) :
    components ⟨String.ofList (lead text)⟩ = components ⟨String.ofList text⟩ := by
  rcases List.eq_nil_or_concat text with rfl | ⟨start, c, rfl⟩
  · rfl
  · rw [List.concat_eq_append, lead_concat]
    split
    · rfl
    · have hslash := components_append_slash (List.concat_ne_nil c start)
      rwa [List.append_assoc] at hslash

/-- **A name after a path** is its last component. -/
theorem components_join_name (path : Path) {name : List Char} (hname : IsFileName name) :
    (path.join ⟨String.ofList name⟩).components =
      path.components ++ [.name (String.ofList name)] := by
  have hends := isFront_lead path.text.toList
  obtain ⟨pieces, hpieces⟩ := parts_of_ends hends
  have hbusy : isIdle name = false := by simp [isIdle, hname.nonempty, hname.dot]
  have hlead := components_lead path.text.toList
  rw [String.ofList_toList] at hlead
  rw [← hlead, join_name path hname.slash]
  simp only [components, parts_append_name hends hname.slash hname.dot, hpieces,
    List.dropLast_concat, List.filter_append, List.map_append, List.append_assoc]
  have hempty : isIdle [] = true := rfl
  simp [hbusy, hempty, componentOf, hname.dots]

theorem components_joinAll (path : Path) {names : List String}
    (h : ∀ name ∈ names, IsFileName name.toList) :
    (path.joinAll names).components = path.components ++ names.map .name := by
  induction names generalizing path with
  | nil => simp [joinAll]
  | cons name names ih =>
    obtain ⟨hname, hnames⟩ := List.forall_mem_cons.1 h
    have hfirst := components_join_name path hname
    rw [String.ofList_toList] at hfirst
    change ((path.join ⟨name⟩).joinAll names).components = _
    rw [ih _ hnames, hfirst, List.append_assoc, List.map_cons, List.singleton_append]

theorem below?_joinAll (path : Path) {names : List String}
    (h : ∀ name ∈ names, IsFileName name.toList) :
    path.below? (path.joinAll names) = some (names.map .name) := by
  unfold below?
  rw [components_joinAll path h]
  simp [List.isPrefixOf_iff_prefix]

/-- No name that is put after a path makes it shorter. -/
theorem size_le_join (path : Path) {name : String} (h : '/' ∉ name.toList) :
    path.text.utf8ByteSize ≤ (path.join ⟨name⟩).text.utf8ByteSize := by
  have hrelative : Path.isAbsolute ⟨name⟩ = false := by
    rw [isAbsolute, beq_eq_false_iff_ne]
    exact fun hfirst => h (List.mem_of_head? hfirst)
  unfold join
  rw [hrelative, if_neg Bool.false_ne_true]
  split
  · rw [String.utf8ByteSize_append]
    omega
  · rw [String.utf8ByteSize_append, String.utf8ByteSize_append]
    omega

theorem size_le_joinAll (path : Path) {names : List String}
    (h : ∀ name ∈ names, '/' ∉ name.toList) :
    path.text.utf8ByteSize ≤ (path.joinAll names).text.utf8ByteSize := by
  induction names generalizing path with
  | nil => exact le_refl _
  | cons name names ih =>
    obtain ⟨hname, hnames⟩ := List.forall_mem_cons.1 h
    exact (size_le_join path hname).trans (ih (path.join ⟨name⟩) hnames)

end Path

namespace Layout

open Mixins.Path (IsFileName IsSegment)

/-- The package of a directory that is reached by names. -/
theorem packageOf_joinAll (root : Path) {names : List String}
    (h : ∀ name ∈ names, IsFileName name.toList) :
    packageOf root (root.joinAll names) = some (".".intercalate names) := by
  unfold packageOf
  rw [Path.below?_joinAll root h, Option.map_some, List.map_map]
  have htext : Path.Component.text ∘ .name = id := rfl
  rw [htext, List.map_id]

/-- The parts of a namespace that count. -/
def namespaceParts (name : String) : List String :=
  ((name.toList.splitOn '.').filter (· ≠ [])).map String.ofList

theorem namespaceDir_eq (root : Path) (name : String) :
    namespaceDir root name = root.joinAll (namespaceParts name) := by
  rw [namespaceDir, Path.joinAll, namespaceParts, List.foldl_map]

theorem isFileName_namespaceParts {name : String} (h : '/' ∉ name.toList) :
    ∀ part ∈ namespaceParts name, IsFileName part.toList := by
  intro part hpart
  obtain ⟨segment, hsegment, rfl⟩ := List.mem_map.1 hpart
  obtain ⟨hmem, hne⟩ := List.mem_filter.1 hsegment
  have hsegment : IsSegment segment :=
    ⟨by simpa using hne, fun hslash => h (Path.mem_of_mem_splitOn hmem hslash),
      Path.not_mem_splitOn hmem⟩
  rw [String.toList_ofList]
  exact hsegment.isFileName

end Layout

end Mixins
