import Mixins.FileTree.Listing
import Mixins.Proofs.FileTree.Reading

/-!
# What a listing holds

The files below a directory are listed by the names that lead to them, with slashes between. No name
holds a slash, so each file has a line of its own, and the line is a path to it from the directory.

* `names_slashed` — the names in a path that was made of names.
* `mem_filesBelow`, `filesBelow_nodup` — which files are listed, each of them once.
* `locate_slashed`, `read_slashed` — a line of the listing leads from the directory to the file.
-/

namespace Mixins.FileTree

variable {t : FileTree} {l m : Location} {ns ns' : List String}

/-- The names with slashes between them. -/
def slashed (ns : List String) : String := "/".intercalate ns

theorem slashed_toList (ns : List String) :
    (slashed ns).toList = ['/'].intercalate (ns.map String.toList) :=
  String.toList_intercalate

theorem isNodeName_iff {name : String} : isNodeName name = true ↔
    name ≠ "" ∧ (name ≠ "." ∧ name ≠ "..") ∧ ('/' ∉ name.toList ∧ '\x00' ∉ name.toList) ∧
      name.utf8ByteSize ≤ maxNameSize := by
  simp only [isNodeName, Bool.and_eq_true, decide_eq_true_eq, List.all_eq_true, and_assoc]
  refine and_congr_right fun _ => and_congr_right fun _ => and_congr_right fun _ => ?_
  rw [← and_assoc]
  refine and_congr_left fun _ => ?_
  exact ⟨fun h => ⟨fun hc => (h _ hc).1 rfl, fun hc => (h _ hc).2 rfl⟩,
    fun h c hc => ⟨fun heq => h.1 (heq ▸ hc), fun heq => h.2 (heq ▸ hc)⟩⟩

/-- Names are pieces of a path: not empty, and without a slash. -/
theorem pieces_of_isNodeName (h : ns.all isNodeName) :
    ∀ name ∈ ns, name.toList ≠ [] ∧ '/' ∉ name.toList := by
  intro name hname
  obtain ⟨hempty, -, ⟨hslash, -⟩, -⟩ := isNodeName_iff.1 (List.all_eq_true.1 h name hname)
  exact ⟨fun hnil => hempty (String.toList_inj.1 hnil), hslash⟩

/-- **The names in a path** that was made of names. -/
theorem names_slashed (h : ns.all isNodeName) : names ⟨slashed ns⟩ = ns := by
  have hname := pieces_of_isNodeName h
  have hslash : ∀ piece ∈ ns.map String.toList, '/' ∉ piece := by
    rintro _ hpiece
    obtain ⟨name, hmem, rfl⟩ := List.mem_map.1 hpiece
    exact (hname name hmem).2
  have hfull : (ns.map String.toList).filter (· ≠ []) = ns.map String.toList := by
    refine List.filter_eq_self.2 fun piece hpiece => decide_eq_true ?_
    obtain ⟨name, hmem, rfl⟩ := List.mem_map.1 hpiece
    exact (hname name hmem).1
  rw [names, slashed_toList, Path.splitOn_intercalate_names hslash, hfull, List.map_map]
  simp

theorem slashed_inj (h : ns.all isNodeName) (h' : ns'.all isNodeName)
    (hsame : slashed ns = slashed ns') : ns = ns' := by
  rw [← names_slashed h, ← names_slashed h', hsame]

/-! ## The files below a location -/

theorem below?_eq_some_iff : below? l m = some ns ↔ m = l ++ ns := by
  unfold below?
  constructor
  · intro h
    split at h
    · rename_i hstart
      have hprefix := List.prefix_iff_eq_append.1 (List.isPrefixOf_iff_prefix.1 hstart)
      rw [← Option.some.inj h, hprefix]
    · cases h
  · rintro rfl
    rw [if_pos (List.isPrefixOf_iff_prefix.2 (List.prefix_append _ _)), List.drop_left]

theorem sorted_perm (names : List String) : (sorted names).Perm names := List.mergeSort_perm _ _

/-- What a listing has for a node. -/
theorem line_eq_some_iff {n : Node} {line : String} :
    (match n with
      | .file _ => (below? l m).map fun names => "/".intercalate names
      | .directory => none) = some line ↔
    ∃ ns content, n = .file content ∧ m = l ++ ns ∧ line = slashed ns := by
  constructor
  · intro h
    cases n with
    | directory => cases h
    | file content =>
      obtain ⟨ns, hbelow, rfl⟩ := Option.map_eq_some_iff.1 h
      exact ⟨ns, content, rfl, below?_eq_some_iff.1 hbelow, rfl⟩
  · rintro ⟨ns, content, rfl, hm, rfl⟩
    exact Option.map_eq_some_iff.2 ⟨ns, below?_eq_some_iff.2 hm, rfl⟩

/-- The listed files. -/
theorem mem_filesBelow {line : String} : line ∈ t.filesBelow l ↔
    ∃ ns content, line = slashed ns ∧ t.find? (l ++ ns) = some (.file content) := by
  rw [filesBelow, (sorted_perm _).mem_iff, List.mem_filterMap]
  constructor
  · rintro ⟨⟨m, n⟩, hmem, hline⟩
    obtain ⟨ns, content, rfl, rfl, rfl⟩ := line_eq_some_iff.1 hline
    exact ⟨ns, content, rfl, (t.find?_eq_some_iff (t.rooted _ hmem).1).2 hmem⟩
  · rintro ⟨ns, content, rfl, hfile⟩
    have hne : l ++ ns ≠ [] := by
      intro hnil
      rw [hnil] at hfile
      cases hfile
    exact ⟨(l ++ ns, .file content), (t.find?_eq_some_iff hne).1 hfile,
      line_eq_some_iff.2 ⟨ns, content, rfl, rfl, rfl⟩⟩

/-- No file is listed twice. -/
theorem filesBelow_nodup (t : FileTree) (l : Location) : (t.filesBelow l).Nodup := by
  rw [filesBelow, (sorted_perm _).nodup_iff, List.nodup_iff_pairwise_ne, List.pairwise_filterMap]
  refine t.distinct.imp_of_mem fun {a b} ha hb hne line hline line' hline' hsame => hne ?_
  obtain ⟨ns, -, -, hm, rfl⟩ := line_eq_some_iff.1 hline
  obtain ⟨ns', -, -, hm', rfl⟩ := line_eq_some_iff.1 hline'
  have hnamed := t.named _ ha
  have hnamed' := t.named _ hb
  rw [hm, List.all_append, Bool.and_eq_true] at hnamed
  rw [hm', List.all_append, Bool.and_eq_true] at hnamed'
  rw [hm, hm', slashed_inj hnamed.2 hnamed'.2 hsame]

/-! ## Reading what is listed -/

theorem locateDirectory_eq_ok_iff {root : Path} : t.locateDirectory root = .ok l ↔
    t.locate root = .ok l ∧ t.find? l = some .directory := by
  unfold locateDirectory
  rw [bind_eq_ok]
  constructor
  · rintro ⟨m, hm, h⟩
    split at h
    · cases h
      exact ⟨hm, ‹_›⟩
    · cases h
  · rintro ⟨hl, hdirectory⟩
    exact ⟨l, hl, if_pos hdirectory⟩

theorem checkText_eq_ok_iff {path : Path} : checkText path = .ok () ↔
    '\x00' ∉ path.text.toList ∧ path.text ≠ "" ∧ path.text.utf8ByteSize ≤ maxPathSize := by
  unfold checkText
  rw [List.contains_eq_mem]
  by_cases hnul : '\x00' ∈ path.text.toList
  · simp [hnul]
  by_cases hempty : path.text = ""
  · simp [hempty]
  by_cases hlong : maxPathSize < path.text.utf8ByteSize
  · simp [hnul, hempty, hlong]
  · simp [hnul, hempty, hlong, Nat.not_lt.1 hlong]

/-- Names with slashes between them begin and end in no slash. -/
theorem slashed_ends (h : ns.all isNodeName) (hne : ns ≠ []) :
    Path.isAbsolute ⟨slashed ns⟩ = false ∧
      ∃ start c, (slashed ns).toList = start ++ [c] ∧ c ≠ '/' := by
  have hname := pieces_of_isNodeName h
  constructor
  · obtain ⟨name, rest, rfl⟩ := List.exists_cons_of_ne_nil hne
    obtain ⟨hempty, hslash⟩ := hname name List.mem_cons_self
    obtain ⟨c, cs, hcs⟩ := List.exists_cons_of_ne_nil hempty
    have hc : c ≠ '/' := fun hc => hslash (by simp [hcs, hc])
    have hfirst : ∃ more, (slashed (name :: rest)).toList = c :: more := by
      rw [slashed_toList, List.map_cons, hcs]
      cases rest with
      | nil => exact ⟨cs, by simp⟩
      | cons next rest =>
        rw [List.map_cons, List.intercalate_cons_of_ne_nil (List.cons_ne_nil _ _)]
        exact ⟨_, rfl⟩
    obtain ⟨more, hmore⟩ := hfirst
    simp [Path.isAbsolute, hmore, hc]
  · obtain ⟨init, last, rfl⟩ := (List.eq_nil_or_concat ns).resolve_left hne
    obtain ⟨hempty, hslash⟩ := hname last (by simp)
    obtain ⟨start, c, hlast⟩ := (List.eq_nil_or_concat last.toList).resolve_left hempty
    refine ⟨['/'].intercalate (init.map String.toList ++ [[]]) ++ start, c, ?_,
      fun hc => hslash (by simp [hlast, hc])⟩
    rw [slashed_toList, List.concat_eq_append, List.map_append, List.map_singleton,
      Path.intercalate_append _ (List.cons_ne_nil _ _), List.intercalate_singleton, hlast]
    simp

theorem not_nul_mem_lead {text : List Char} (h : '\x00' ∉ text) : '\x00' ∉ Path.lead text := by
  rcases List.eq_nil_or_concat text with rfl | ⟨start, c, rfl⟩
  · exact h
  · rw [List.concat_eq_append] at h ⊢
    rw [Path.lead_concat]
    split
    · exact h
    · simpa using h

/-- The names that lead to a node are names of nodes. -/
theorem isNodeName_of_find? (h : t.find? (l ++ ns) ≠ none) : ∀ name ∈ ns, isNodeName name :=
  fun name hname => List.all_eq_true.1 (all_isNodeName h) name (List.mem_append_right l hname)

/-- **What names lead to** from a directory is found by the path that has them at its end, with
slashes between, if that is not too long. -/
theorem locate_slashed {root : Path} (hroot : t.locateDirectory root = .ok l) (hne : ns ≠ [])
    (hfound : t.find? (l ++ ns) ≠ none)
    (hlength : (root.join ⟨slashed ns⟩).text.utf8ByteSize ≤ maxPathSize) :
    t.locate (root.join ⟨slashed ns⟩) = .ok (l ++ ns) := by
  obtain ⟨hlocate, hdirectory⟩ := locateDirectory_eq_ok_iff.1 hroot
  obtain ⟨htext, hfold, -⟩ := locate_eq_ok_iff.1 hlocate
  have hnamed : ns.all isNodeName := List.all_eq_true.2 (isNodeName_of_find? hfound)
  have hnode : ∀ name ∈ ns, _ := fun name hname =>
    isNodeName_iff.1 (isNodeName_of_find? hfound name hname)
  obtain ⟨hrelative, start, c, hlast, hc⟩ := slashed_ends hnamed hne
  have hpath := Path.join_toList root hrelative
  have hends : (root.join ⟨slashed ns⟩).text.toList =
      Path.lead root.text.toList ++ start ++ [c] := by rw [hpath, hlast, List.append_assoc]
  have hordinary : Ordinary ns := fun name hname => (hnode name hname).2.1
  refine locate_eq_ok_iff.2 ⟨checkText_eq_ok_iff.2 ⟨?_, ?_, hlength⟩, ?_, ?_⟩
  · rw [hpath, List.mem_append, not_or, slashed_toList, Path.mem_intercalate_iff (by decide)]
    refine ⟨not_nul_mem_lead (checkText_eq_ok_iff.1 htext).1, ?_⟩
    rintro ⟨piece, hpiece, hnul⟩
    obtain ⟨name, hname, rfl⟩ := List.mem_map.1 hpiece
    exact (hnode name hname).2.2.1.2 hnul
  · intro hempty
    simp [hempty] at hends
  · rw [Path.names_join root hrelative, names_slashed hnamed, List.foldlM_append, base,
      Path.isAbsolute_join root hrelative, ← base, hfold, ok_bind]
    exact foldlM_step_found hordinary hfound
  · simp [endsInSlash, hends, hc]

/-- **What a line of the listing leads to** is read, if the path to it is not too long. -/
theorem read_slashed {root : Path} {content : Utf8.Bytes} (hroot : t.locateDirectory root = .ok l)
    (hfile : t.find? (l ++ ns) = some (.file content))
    (hlength : (root.join ⟨slashed ns⟩).text.utf8ByteSize ≤ maxPathSize) :
    t.read (root.join ⟨slashed ns⟩) = .ok content := by
  have hne : ns ≠ [] := by
    rintro rfl
    rw [List.append_nil, (locateDirectory_eq_ok_iff.1 hroot).2] at hfile
    cases hfile
  exact read_eq_ok_iff.2 ⟨_, locate_slashed hroot hne (by simp [hfile]) hlength, hfile⟩

end Mixins.FileTree
