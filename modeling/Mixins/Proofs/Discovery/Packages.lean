import Mixins.Proofs.Discovery.Groups
import Mixins.Proofs.FileTree.Walk
import Mixins.Proofs.OutputRoot.Modules

/-!
# The library packages of a namespace

The library packages are looked for in a walk from the directory of the namespace. It is the names
on the way that say in which order the walk goes, not the text of the paths: a directory comes
before one whose name goes on with a hyphen, and so do the directories in it, although a hyphen
comes before a slash.

* `packages_eq` — the packages of the directories that are visited.
* `source_alike` — the order in which a tree lists its nodes does not matter to a classpath.
* `libraryPackages_walk` — which packages are found, and in which order.
-/

namespace Mixins

open FileTree (Alike maxPathSize)
open Mixins.Path (IsFileName Component)

variable {files files' : FileTree}

/-! ## The order of the nodes -/

theorem Module.load_alike (h : Alike files files') (m : Module) (name : String) :
    m.load files name = m.load files' name := by
  have hread : ∀ source outer, readOutermost? files source outer =
      readOutermost? files' source outer := by
    intro source outer
    unfold readOutermost?
    rw [source.typeBytes?_alike h]
  simp only [load, loadOutermost?, hread]

theorem Classpath.load_alike (h : Alike files files') (name : String) (classpath : Classpath) :
    classpath.load files name = classpath.load files' name := by
  induction classpath with
  | nil => rfl
  | cons m rest ih => rw [load, load, Module.load_alike h, ih]

namespace Discovery

theorem source_alike (h : Alike files files') : source files = source files' := by
  funext name classpath
  exact classpath.load_alike h name

/-! ## The packages of a namespace -/

/-- The packages that are looked at are named by the names on the way to their directories. -/
theorem packages_eq {settings : Settings} {root : OutputRoot} {visited : List (List String)}
    (hslash : '/' ∉ settings.namespaceName.toList)
    (hvisited : files.directories (root.namespaceDir settings.namespaceName) =
      visited.map (root.namespaceDir settings.namespaceName).joinAll)
    (hnames : ∀ ns ∈ visited, ∀ name ∈ ns, IsFileName name.toList) :
    packages files settings root = visited.map fun ns =>
      ".".intercalate (Layout.namespaceParts settings.namespaceName ++ ns) := by
  have hparts := Layout.isFileName_namespaceParts hslash
  unfold packages
  dsimp only
  rw [hvisited, List.filterMap_map, ← List.filterMap_eq_map]
  refine List.filterMap_congr fun ns hns => ?_
  have hall : ∀ name ∈ Layout.namespaceParts settings.namespaceName ++ ns,
      IsFileName name.toList := by
    intro name hname
    rcases List.mem_append.1 hname with hname | hname
    · exact hparts name hname
    · exact hnames ns hns name hname
  have hpackage := Layout.packageOf_joinAll root.dir hall
  rwa [Path.joinAll_append, ← Layout.namespaceDir_eq] at hpackage

/-- Lists with the same beginning compare as what follows it. -/
theorem append_lt_append_left (before : List String) {ns ns' : List String} (h : ns < ns') :
    before ++ ns < before ++ ns' := by
  induction before with
  | nil => exact h
  | cons name before ih => exact List.cons_lt_cons_iff.2 (.inr ⟨rfl, ih⟩)

/-- **Which library packages are found, and in which order.** The walk goes to the directory of the
namespace and to every directory below it, to each of them once, and leaves out only those that
cannot be listed because their path is too long. It goes in the lexicographic order of the
components of their paths. The packages of these directories that are library packages are found, in
this order. All this is the same for trees that list the same nodes in another order. -/
theorem libraryPackages_walk (files : FileTree) (settings : Settings) (root : OutputRoot)
    (classpath : Classpath) (hslash : '/' ∉ settings.namespaceName.toList) :
    let start := root.namespaceDir settings.namespaceName
    let found (files : FileTree) :=
      answer settings classpath (libraryPackages (source files) files settings root)
    (∃ visited : List (List String), files.directories start = visited.map start.joinAll ∧
      visited.Nodup ∧
      (∀ ns, ns ∈ visited ↔ files.LeadsToDirectory start ns ∧
        (start.joinAll ns).text.utf8ByteSize ≤ maxPathSize) ∧
      found files = (visited.map fun ns =>
        ".".intercalate (Layout.namespaceParts settings.namespaceName ++ ns)).filter fun package =>
          answer settings classpath (isLibraryPackage (source files) settings package)) ∧
    (files.directories start).Pairwise (fun dir dir' =>
      dir.components.map Component.text < dir'.components.map Component.text) ∧
    ∀ files', Alike files files' →
      files'.directories start = files.directories start ∧ found files' = found files := by
  intro start found
  obtain ⟨visited, hvisited, hsorted, hmem⟩ := files.directories_walk start
  have hnames : ∀ ns ∈ visited, ∀ name ∈ ns, IsFileName name.toList := by
    intro ns hns
    obtain ⟨⟨l, -, hfound⟩, -⟩ := (hmem ns).1 hns
    exact FileTree.isFileName_of_find? (by rw [hfound]; exact Option.some_ne_none _)
  have hcomponents : ∀ ns ∈ visited, (start.joinAll ns).components.map Component.text =
      start.components.map Component.text ++ ns := by
    intro ns hns
    have htext : Component.text ∘ .name = id := rfl
    rw [Path.components_joinAll start (hnames ns hns), List.map_append, List.map_map, htext,
      List.map_id]
  -- the paths of the visited directories begin alike, so they compare as the names after that do
  refine ⟨⟨visited, hvisited, ?_, hmem, ?_⟩, ?_, fun files' halike => ?_⟩
  · refine List.nodup_iff_pairwise_ne.2 (hsorted.imp ?_)
    rintro ns _ hlt rfl
    exact List.lt_irrefl ns hlt
  · rw [← packages_eq hslash hvisited hnames]
    exact answer_libraryPackages files settings root classpath
  · rw [hvisited, List.pairwise_map]
    refine hsorted.imp_of_mem fun hns hns' hlt => ?_
    rw [hcomponents _ hns, hcomponents _ hns']
    exact append_lt_append_left _ hlt
  · have hdirectories : files'.directories start = files.directories start :=
      (halike.directories_eq start).symm
    refine ⟨hdirectories, ?_⟩
    have hpackages : packages files' settings root = packages files settings root := by
      unfold packages
      dsimp only
      rw [hdirectories]
    simp only [found, libraryPackages, source_alike halike, hpackages]

/-- Two directories, of which one lies in a directory whose name the other's continues. -/
def hyphenated : FileTree where
  nodes := [["out"], ["out", "def"], ["out", "def", "a-b"], ["out", "def", "a"],
    ["out", "def", "a", "c"]].map (·, .directory)
  start := []
  times := []
  distinct := by decide
  rooted := by decide
  named := by decide

/-- A classpath that remembers the descriptors of library packages. -/
def remembering (packages : List String) : Classpath :=
  [⟨.directory ⟨"out"⟩, packages.map fun package =>
    (Name.packageInfoOf package, { TypeDef.bare (Name.packageInfoOf package) .packageInfo with
      markers := [⟨Settings.default.rootMarker, .empty⟩] })⟩]

/-- Both packages are found. The walk goes to the one in `a` first, although a hyphen comes before a
slash. -/
theorem libraryPackages_walk_hyphenated :
    let found := answer Settings.default (remembering ["def.a-b", "def.a.c"])
      (libraryPackages (source hyphenated) hyphenated Settings.default ⟨⟨"out"⟩⟩)
    '/' ∉ Settings.default.namespaceName.toList ∧
      (∃ visited : List (List String),
        hyphenated.directories ⟨"out/def"⟩ = visited.map (Path.joinAll ⟨"out/def"⟩) ∧
          ["a", "c"] ∈ visited ∧ ["a-b"] ∈ visited) ∧
      (hyphenated.directories ⟨"out/def"⟩).Pairwise (fun dir dir' =>
        dir.components.map Component.text < dir'.components.map Component.text) ∧
      "def.a.c" ∈ found ∧ "def.a-b" ∈ found := by
  intro found
  have hslash : '/' ∉ Settings.default.namespaceName.toList := by decide
  obtain ⟨⟨visited, hvisited, -, hmem, hfound⟩, hsorted, -⟩ := libraryPackages_walk hyphenated
    Settings.default ⟨⟨"out"⟩⟩ (remembering ["def.a-b", "def.a.c"]) hslash
  have hstart : OutputRoot.namespaceDir ⟨⟨"out"⟩⟩ Settings.default.namespaceName =
      ⟨"out/def"⟩ := by decide +kernel
  rw [hstart] at hvisited hsorted hmem
  change found = _ at hfound
  have hdirectory : hyphenated.locateDirectory ⟨"out/def"⟩ = .ok ["out", "def"] := by
    decide +kernel
  have hinner : ["a", "c"] ∈ visited :=
    (hmem _).2 ⟨⟨_, hdirectory, by decide +kernel⟩, by decide +kernel⟩
  have houter : ["a-b"] ∈ visited :=
    (hmem _).2 ⟨⟨_, hdirectory, by decide +kernel⟩, by decide +kernel⟩
  have hlibrary : ∀ package ∈ ["def.a.c", "def.a-b"],
      answer Settings.default (remembering ["def.a-b", "def.a.c"])
        (isLibraryPackage (source hyphenated) Settings.default package) = true := by
    decide +kernel
  rw [hfound, List.mem_filter, List.mem_filter, List.mem_map, List.mem_map]
  exact ⟨hslash, ⟨visited, hvisited, hinner, houter⟩, hsorted,
    ⟨⟨_, hinner, by decide +kernel⟩, hlibrary _ (by simp)⟩,
    ⟨⟨_, houter, by decide +kernel⟩, hlibrary _ (by simp)⟩⟩

end Discovery

end Mixins
