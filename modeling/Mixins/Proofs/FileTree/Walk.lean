import Mathlib.Data.List.Basic
import Mixins.Proofs.FileTree.Listing
import Mixins.Proofs.Path.Components

/-!
# What a walk visits

A walk goes from a directory to the directories in it, by name, and from each of them on. A
directory below the start is told by the names that lead to it, and the walk visits the directories
in the lexicographic order of these names, each of them once. It leaves out only those whose path is
longer than a path may be, which cannot be entered. The order in which the tree lists its nodes
plays no part.

* `mem_subdirectories`, `subdirectories_pairwise` — the directories in a directory.
* `locate_join` — a name leads on from a directory.
* `walk_eq`, `mem_entered`, `entered_pairwise` — a walk from a directory.
* `directories_walk` — the walk from the directory at a path.
* `Alike.directories_eq` — trees that hold the same nodes are walked alike.
-/

namespace Mixins.FileTree

open Mixins.Path (IsFileName)

variable {t t' : FileTree} {l : Location} {path start : Path} {ns : List String} {name : String}

/-! ## The directories in a directory -/

/-- What a directory has for a node. -/
theorem entry_eq_some_iff {m : Location} {n : Node} :
    (match n with
      | .file _ => none
      | .directory => if m.dropLast = l then m.getLast? else none) = some name ↔
    n = .directory ∧ m = l ++ [name] := by
  constructor
  · intro h
    cases n with
    | file content => cases h
    | directory =>
      dsimp only at h
      split at h
      · rename_i hparent
        exact ⟨rfl, by rw [← hparent, List.dropLast_append_getLast? name h]⟩
      · cases h
  · rintro ⟨rfl, rfl⟩
    simp

theorem mem_subdirectories :
    name ∈ t.subdirectories l ↔ t.find? (l ++ [name]) = some .directory := by
  rw [subdirectories, (sorted_perm _).mem_iff, List.mem_filterMap, t.find?_eq_some_iff (by simp)]
  constructor
  · rintro ⟨⟨m, n⟩, hmem, hentry⟩
    obtain ⟨rfl, rfl⟩ := entry_eq_some_iff.1 hentry
    exact hmem
  · exact fun hmem => ⟨_, hmem, entry_eq_some_iff.2 ⟨rfl, rfl⟩⟩

theorem sorted_pairwise (names : List String) : (sorted names).Pairwise (· ≤ ·) := by
  have hsorted : (sorted names).Pairwise fun a b => decide (a ≤ b) = true :=
    @List.pairwise_mergeSort _ (fun a b : String => decide (a ≤ b))
      (fun _ _ _ h h' => decide_eq_true
        (String.le_trans (of_decide_eq_true h) (of_decide_eq_true h')))
      (fun a b => by simpa using String.le_total a b) names
  exact hsorted.imp of_decide_eq_true

/-- The directories in a directory are in increasing order, each of them once. -/
theorem subdirectories_pairwise (t : FileTree) (l : Location) :
    (t.subdirectories l).Pairwise (· < ·) := by
  have hdistinct : (t.subdirectories l).Nodup := by
    rw [subdirectories, (sorted_perm _).nodup_iff, List.nodup_iff_pairwise_ne,
      List.pairwise_filterMap]
    refine t.distinct.imp fun hne name hname name' hname' hsame => hne ?_
    rw [(entry_eq_some_iff.1 hname).2, (entry_eq_some_iff.1 hname').2, hsame]
  exact (List.nodup_iff_pairwise_ne.1 hdistinct).imp₂
    (fun _ _ hne hle => Std.lt_of_le_of_ne hle hne) (sorted_pairwise _)

/-! ## Going on by a name -/

theorem isFileName_of_isNodeName (h : isNodeName name) : IsFileName name.toList := by
  obtain ⟨hempty, ⟨hdot, hdots⟩, ⟨hslash, -⟩, -⟩ := isNodeName_iff.1 h
  exact ⟨hslash, fun h => hempty (String.toList_inj.1 h), fun h => hdot (String.toList_inj.1 h),
    fun h => hdots (String.toList_inj.1 h)⟩

theorem isFileName_of_find? (h : t.find? (l ++ ns) ≠ none) :
    ∀ name ∈ ns, IsFileName name.toList :=
  fun name hname => isFileName_of_isNodeName (isNodeName_of_find? h name hname)

/-- **A name leads on** from a directory, unless the path becomes too long. -/
theorem locate_join (hpath : t.locate path = .ok l) (hentry : t.find? (l ++ [name]) ≠ none)
    (hsize : (path.join ⟨name⟩).text.utf8ByteSize ≤ maxPathSize) :
    t.locate (path.join ⟨name⟩) = .ok (l ++ [name]) := by
  have hone : slashed [name] = name := by simp [slashed]
  have hstart : t.locateDirectory path = .ok l :=
    locateDirectory_eq_ok_iff.2 ⟨hpath, find?_parent hentry⟩
  rw [← hone] at hsize
  have hlocate := locate_slashed hstart (List.cons_ne_nil _ _) hentry hsize
  rwa [hone] at hlocate

/-- Above a directory there are directories. -/
theorem directory_above (h : t.find? (l ++ ns) = some .directory) :
    t.find? l = some .directory := by
  induction ns using List.reverseRecOn with
  | nil => rwa [List.append_nil] at h
  | append_singleton ns last ih =>
    rw [← List.append_assoc] at h
    have hlast : t.find? (l ++ ns ++ [last]) ≠ none := by rw [h]; exact Option.some_ne_none _
    exact ih (find?_parent hlast)

/-- The directories that a walk goes on to. -/
theorem mem_enterable (hpath : t.locate path = .ok l) : name ∈ t.enterable path l ↔
    t.find? (l ++ [name]) = some .directory ∧
      (path.join ⟨name⟩).text.utf8ByteSize ≤ maxPathSize := by
  rw [enterable, List.mem_filter, mem_subdirectories]
  refine and_congr_right fun hentry => ?_
  unfold isDirectory
  constructor
  · intro h
    cases hlocate : t.locate (path.join ⟨name⟩) with
    | error cause => simp [hlocate] at h
    | ok m => exact (checkText_eq_ok_iff.1 (locate_eq_ok_iff.1 hlocate).1).2.2
  · intro hsize
    rw [locate_join hpath (by simp [hentry]) hsize]
    simp [hentry]

/-! ## The walk -/

/-- The names that lead from a directory to those that a walk visits: itself, and those below it. -/
def entered (t : FileTree) : Nat → Path → Location → List (List String)
  | 0, _, _ => [[]]
  | levels + 1, path, l =>
    [] :: (t.enterable path l).flatMap fun name =>
      (t.entered levels (path.join ⟨name⟩) (l ++ [name])).map (name :: ·)

theorem walk_eq (levels : Nat) (path : Path) (l : Location) :
    t.walk levels path l = (t.entered levels path l).map path.joinAll := by
  induction levels generalizing path l with
  | zero => rfl
  | succ levels ih =>
    simp only [walk, entered, ih, List.map_cons, List.map_flatMap, List.map_map]
    rfl

/-- A walk goes through the names in lexicographic order. -/
theorem entered_pairwise (t : FileTree) (levels : Nat) (path : Path) (l : Location) :
    (t.entered levels path l).Pairwise (· < ·) := by
  induction levels generalizing path l with
  | zero => simp [entered]
  | succ levels ih =>
    rw [entered, List.pairwise_cons, List.pairwise_flatMap]
    refine ⟨fun ns hns => ?_, fun name _ => ?_, ?_⟩
    · obtain ⟨name, -, hns⟩ := List.mem_flatMap.1 hns
      obtain ⟨rest, -, rfl⟩ := List.mem_map.1 hns
      exact List.nil_lt_cons _ _
    · rw [List.pairwise_map]
      exact (ih _ _).imp fun h => List.cons_lt_cons_iff.2 (.inr ⟨rfl, h⟩)
    · refine ((subdirectories_pairwise t l).filter _).imp fun hlt ns hns ns' hns' => ?_
      obtain ⟨rest, -, rfl⟩ := List.mem_map.1 hns
      obtain ⟨rest', -, rfl⟩ := List.mem_map.1 hns'
      exact List.cons_lt_cons_iff.2 (.inl hlt)

/-- **A walk visits** every directory that is no more levels down and whose path is not too long. -/
theorem mem_entered {levels : Nat} (hpath : t.locate path = .ok l)
    (hl : t.find? l = some .directory) : ns ∈ t.entered levels path l ↔
      t.find? (l ++ ns) = some .directory ∧ ns.length ≤ levels ∧
        (path.joinAll ns).text.utf8ByteSize ≤ maxPathSize := by
  have hsize : path.text.utf8ByteSize ≤ maxPathSize :=
    (checkText_eq_ok_iff.1 (locate_eq_ok_iff.1 hpath).1).2.2
  induction levels generalizing path l ns with
  | zero =>
    rw [entered, List.mem_singleton]
    constructor
    · rintro rfl
      exact ⟨by rwa [List.append_nil], le_refl _, hsize⟩
    · exact fun h => List.length_eq_zero_iff.1 (Nat.le_zero.1 h.2.1)
  | succ levels ih =>
    rw [entered, List.mem_cons, List.mem_flatMap]
    cases ns with
    | nil => exact iff_of_true (.inl rfl) ⟨by rwa [List.append_nil], Nat.zero_le _, hsize⟩
    | cons name rest =>
      have hcons : l ++ name :: rest = l ++ [name] ++ rest := by simp
      rw [hcons, List.length_cons, Nat.add_le_add_iff_right]
      constructor
      · rintro (h | ⟨other, hother, hrest⟩)
        · cases h
        obtain ⟨_, hmem, heq⟩ := List.mem_map.1 hrest
        obtain ⟨rfl, rfl⟩ := List.cons.inj heq
        obtain ⟨hentry, hnext⟩ := (mem_enterable hpath).1 hother
        exact (ih (locate_join hpath (by simp [hentry]) hnext) hentry hnext).1 hmem
      · intro h
        -- the directories above are there, and their paths are no longer
        have hentry := directory_above h.1
        have hfound : t.find? (l ++ [name] ++ rest) ≠ none := by
          rw [h.1]
          exact Option.some_ne_none _
        have hnext := (Path.size_le_joinAll (path.join ⟨name⟩) fun name hname =>
          (isFileName_of_find? hfound name hname).slash).trans h.2.2
        refine .inr ⟨name, (mem_enterable hpath).2 ⟨hentry, hnext⟩, List.mem_map.2 ⟨rest, ?_, rfl⟩⟩
        exact (ih (locate_join hpath (by simp [hentry]) hnext) hentry hnext).2 h

/-- No more names lead to a node than the tree is high. -/
theorem length_le_height {m : Location} (h : t.find? m ≠ none) : m.length ≤ t.height := by
  have hlisted : ∀ nodes : List (Location × Node), ∀ e ∈ nodes,
      e.1.length ≤ nodes.foldr (fun e height => max e.1.length height) 0 := by
    intro nodes e he
    induction nodes with
    | nil => cases he
    | cons first rest ih =>
      rw [List.foldr_cons]
      rcases List.mem_cons.1 he with rfl | he
      · exact Nat.le_max_left _ _
      · exact (ih he).trans (Nat.le_max_right _ _)
  by_cases hroot : m = []
  · subst hroot
    exact Nat.zero_le _
  · obtain ⟨n, hn⟩ := Option.ne_none_iff_exists'.1 h
    exact hlisted t.nodes (m, n) ((t.find?_eq_some_iff hroot).1 hn)

/-- Whether the names lead from the directory at the path to a directory. -/
def LeadsToDirectory (t : FileTree) (start : Path) (ns : List String) : Prop :=
  ∃ l, t.locateDirectory start = .ok l ∧ t.find? (l ++ ns) = some .directory

/-- **The walk from the directory at a path** visits it and the directories below it, but for those
whose path is too long: in the lexicographic order of the names that lead there, each of them once.
-/
theorem directories_walk (t : FileTree) (start : Path) :
    ∃ visited : List (List String), t.directories start = visited.map start.joinAll ∧
      visited.Pairwise (· < ·) ∧
      ∀ ns, ns ∈ visited ↔ t.LeadsToDirectory start ns ∧
        (start.joinAll ns).text.utf8ByteSize ≤ maxPathSize := by
  unfold directories LeadsToDirectory
  cases hstart : t.locateDirectory start with
  | error cause => exact ⟨[], rfl, .nil, by simp⟩
  | ok l =>
    obtain ⟨hlocate, hdirectory⟩ := locateDirectory_eq_ok_iff.1 hstart
    refine ⟨t.entered t.height start l, walk_eq _ _ _, entered_pairwise _ _ _ _, fun ns => ?_⟩
    rw [mem_entered hlocate hdirectory]
    constructor
    · exact fun ⟨hfound, _, hsize⟩ => ⟨⟨l, rfl, hfound⟩, hsize⟩
    · rintro ⟨⟨m, hm, hfound⟩, hsize⟩
      obtain rfl := Except.ok.inj hm
      have hlength := length_le_height (t := t) (m := l ++ ns) (by simp [hfound])
      rw [List.length_append] at hlength
      exact ⟨hfound, by omega, hsize⟩

/-! ## The order of the nodes -/

/-- A list in increasing order is told by its members. -/
theorem eq_of_pairwise_lt {xs ys : List (List String)} (hx : xs.Pairwise (· < ·))
    (hy : ys.Pairwise (· < ·)) (h : ∀ ns, ns ∈ xs ↔ ns ∈ ys) : xs = ys := by
  have hne : ∀ {ns ns' : List String}, ns < ns' → ns ≠ ns' := by
    rintro ns _ hlt rfl
    exact List.lt_irrefl ns hlt
  have hsame : xs.Perm ys := (List.perm_ext_iff_of_nodup
    (List.nodup_iff_pairwise_ne.2 (hx.imp hne)) (List.nodup_iff_pairwise_ne.2 (hy.imp hne))).2 h
  exact hsame.eq_of_pairwise (fun _ _ _ _ hlt hgt => absurd hgt (List.lt_asymm hlt)) hx hy

theorem Alike.leadsToDirectory_iff (h : Alike t t') :
    t.LeadsToDirectory start ns ↔ t'.LeadsToDirectory start ns := by
  simp only [LeadsToDirectory, locateDirectory, h.locate, h.found]

/-- **The order in which the nodes are listed plays no part** in a walk. -/
theorem Alike.directories_eq (h : Alike t t') (start : Path) :
    t.directories start = t'.directories start := by
  obtain ⟨visited, hvisited, hsorted, hmem⟩ := directories_walk t start
  obtain ⟨visited', hvisited', hsorted', hmem'⟩ := directories_walk t' start
  have hsame : visited = visited' := eq_of_pairwise_lt hsorted hsorted' fun ns => by
    rw [hmem, hmem', h.leadsToDirectory_iff]
  rw [hvisited, hvisited', hsame]

end Mixins.FileTree
