import Mixins.Proofs.FileTree.Listing
import Mixins.Proofs.Layout.Entry
import Mixins.Proofs.Module.Answer

/-!
# Packed directories

An archive that was packed from a directory has an entry for each file below it, under the names
that lead there. The file of a plain name is found by the same names in the directory and in the
archive, so the two modules have the same types.

* `ofDirectory_entries` — what a packed archive holds.
* `ofDirectory_isOk` — packing succeeds if the directory is there and no path below it is too long.
* `ofDirectory_preserves` — a packed module has the types of its directory.
-/

namespace Mixins

open FileTree (slashed)

variable {files : FileTree} {root path : Path} {a : Archive} {name : String}

namespace Archive

/-- Whether the entry tells what the file below the directory holds. -/
structure Entry.Tells (files : FileTree) (root : Path) (e : Entry) : Prop where
  content : files.read (root.join ⟨e.path⟩) = .ok e.content
  modified : e.modified = files.modified (root.join ⟨e.path⟩)

theorem addFile_eq_ok {a' : Archive} {line : String} (h : addFile files root a line = .ok a') :
    ∃ e : Entry, e.path = line ∧ e.Tells files root ∧ a' = a.add line e.modified e.content := by
  unfold addFile at h
  simp only [bind_eq_ok, mapError_eq_ok] at h
  obtain ⟨content, hread, h⟩ := h
  cases h
  exact ⟨⟨line, _, content⟩, rfl, ⟨hread, rfl⟩, rfl⟩

/-- An entry under a new path comes last, and the others stay. -/
theorem entries_add {line : String} (h : line ∉ a.entries.map (·.path)) (modified : Int64)
    (content : Utf8.Bytes) :
    (a.add line modified content).entries = a.entries ++ [⟨line, modified, content⟩] := by
  have hkeep : a.entries.filter (·.path ≠ line) = a.entries :=
    List.filter_eq_self.2 fun e he => decide_eq_true fun heq => h (heq ▸ List.mem_map_of_mem he)
  rw [add, hkeep]

theorem foldlM_addFile {lines : List String} {a' : Archive}
    (hnodup : (a.entries.map (·.path) ++ lines).Nodup)
    (htells : ∀ e ∈ a.entries, e.Tells files root)
    (h : lines.foldlM (addFile files root) a = .ok a') :
    a'.entries.map (·.path) = a.entries.map (·.path) ++ lines ∧
      ∀ e ∈ a'.entries, e.Tells files root := by
  induction lines generalizing a with
  | nil =>
    cases h
    exact ⟨(List.append_nil _).symm, htells⟩
  | cons line lines ih =>
    rw [List.foldlM_cons, bind_eq_ok] at h
    obtain ⟨next, hnext, hrest⟩ := h
    obtain ⟨e, rfl, he, rfl⟩ := addFile_eq_ok hnext
    have hnew : e.path ∉ a.entries.map (·.path) := fun hmem =>
      (List.nodup_append.1 hnodup).2.2 _ hmem _ List.mem_cons_self rfl
    have hentries := entries_add hnew e.modified e.content
    have hnext : ∀ e' ∈ (a.add e.path e.modified e.content).entries, e'.Tells files root := by
      rw [hentries]
      exact List.forall_mem_append.2 ⟨htells, List.forall_mem_singleton.2 he⟩
    obtain ⟨hpaths, hall⟩ := ih (by rw [hentries]; simpa using hnodup) hnext hrest
    refine ⟨?_, hall⟩
    rw [hpaths, hentries, List.map_append, List.append_assoc]
    rfl

/-- **What a packed archive holds**: the files below the directory, in the order of the listing. -/
theorem ofDirectory_entries (h : ofDirectory files root = .ok a) :
    ∃ l, files.locateDirectory root = .ok l ∧ a.entries.map (·.path) = files.filesBelow l ∧
      ∀ e ∈ a.entries, e.Tells files root := by
  unfold ofDirectory at h
  simp only [bind_eq_ok, mapError_eq_ok] at h
  obtain ⟨lines, hlines, h⟩ := h
  unfold FileTree.files at hlines
  split at hlines
  · rename_i l hl
    cases hlines
    exact ⟨l, hl, foldlM_addFile (FileTree.filesBelow_nodup files l) (by simp [empty]) h⟩
  · cases hlines

/-- An entry of a packed archive is found just if its file is below the directory. -/
theorem find?_ofDirectory (h : ofDirectory files root = .ok a) {l : Location}
    (hl : files.locateDirectory root = .ok l) (line : String) :
    (a.find? line).isSome ↔ line ∈ files.filesBelow l := by
  obtain ⟨l', hl', hpaths, -⟩ := ofDirectory_entries h
  obtain rfl : l = l' := Except.ok.inj (hl.symm.trans hl')
  rw [find?, List.find?_isSome, ← hpaths, List.mem_map]
  simp

theorem foldlM_isOk {ε α β : Type} {f : α → β → Except ε α} {bs : List β}
    (h : ∀ b ∈ bs, ∀ a, ∃ a', f a b = .ok a') : ∀ a, ∃ a', bs.foldlM f a = .ok a' := by
  induction bs with
  | nil => exact fun a => ⟨a, rfl⟩
  | cons b bs ih =>
    intro a
    obtain ⟨hfirst, hrest⟩ := List.forall_mem_cons.1 h
    obtain ⟨next, hnext⟩ := hfirst a
    obtain ⟨last, hlast⟩ := ih hrest next
    exact ⟨last, by rw [List.foldlM_cons, hnext, ok_bind, hlast]⟩

/-- **Packing succeeds** if the directory is there and no path to a file below it is too long. -/
theorem ofDirectory_isOk {l : Location} (hl : files.locateDirectory root = .ok l)
    (hshort : ∀ line ∈ files.filesBelow l,
      (root.join ⟨line⟩).text.utf8ByteSize ≤ FileTree.maxPathSize) :
    ∃ a, ofDirectory files root = .ok a := by
  have hadd : ∀ line ∈ files.filesBelow l, ∀ a, ∃ a', addFile files root a line = .ok a' := by
    intro line hline a
    obtain ⟨ns, content, rfl, hfile⟩ := FileTree.mem_filesBelow.1 hline
    have hread := FileTree.read_slashed hl hfile (hshort _ hline)
    exact ⟨_, by rw [addFile, hread]; rfl⟩
  obtain ⟨a, ha⟩ := foldlM_isOk hadd empty
  refine ⟨a, ?_⟩
  simp only [ofDirectory, FileTree.files, hl]
  exact ha

end Archive

namespace Layout

/-- The names on the way to a type's file, with slashes between them, are the path of its entry. -/
theorem slashed_namesTo (h : IsPlain name) :
    slashed (namesTo name extension.toList) = entryPath name := by
  have hjoined : (Name.outermost name).toList = ['.'].intercalate (segments name) :=
    (List.intercalate_splitOn '.').symm
  have hentry : (entryPath name).toList =
      ['/'].intercalate ((segments name).dropLast ++ [(segments name).getLast?.getD []])
        ++ '.' :: extension.toList := by
    rw [entryPath, hjoined, map_dots h, dropLast_append (segments_ne_nil name)]
    simp
  have hnames : (namesTo name extension.toList).map String.toList =
      (segments name).dropLast ++
        [(segments name).getLast?.getD [] ++ '.' :: extension.toList] := by
    simp [namesTo, wayTo, Function.comp_def]
  rw [← String.toList_inj, hentry, FileTree.slashed_toList, hnames, intercalate_concat,
    intercalate_concat _ ((segments name).getLast?.getD []), List.append_assoc]

/-- The file of a plain name is where the entry's path leads from the directory. -/
theorem fileIn_eq_join (root : Path) (h : IsPlain name) :
    fileIn root name = root.join ⟨entryPath name⟩ := by
  rw [fileIn, filePath_eq h]

/-- What is read as a type's file stands in the listing of the directory. -/
theorem entryPath_mem_filesBelow (h : IsPlain name) {l : Location}
    (hl : files.locateDirectory root = .ok l) {content : Utf8.Bytes}
    (hread : files.read (fileIn root name) = .ok content) :
    entryPath name ∈ files.filesBelow l := by
  obtain ⟨m, hm, hfile⟩ := FileTree.read_eq_ok_iff.1 hread
  obtain ⟨start, hstart, -, rfl⟩ := (below_fileIn root h).locate (namesTo_ne_nil _ _) hm
  obtain ⟨hlocate, -⟩ := FileTree.locateDirectory_eq_ok_iff.1 hl
  obtain ⟨-, hfold, -⟩ := FileTree.locate_eq_ok_iff.1 hlocate
  obtain rfl : start = l := Except.ok.inj (hstart.symm.trans hfold)
  exact FileTree.mem_filesBelow.2 ⟨_, content, (slashed_namesTo h).symm, hfile⟩

end Layout

namespace Module.Source

theorem typeBytes?_directory_eq_some_iff {content : Utf8.Bytes} :
    typeBytes? files name (.directory root) = .ok (some content) ↔
      files.read (Layout.fileIn root name) = .ok content := by
  unfold typeBytes?
  dsimp only
  cases files.read (Layout.fileIn root name) with
  | ok content' => simp
  | error cause => cases cause <;> simp

theorem typeBytes?_archive_eq (files : FileTree) (name : String) (path : Path) (a : Archive) :
    typeBytes? files name (.archive path a) =
      .ok ((a.find? (Layout.entryPath name)).map (·.content)) :=
  rfl

/-- **A plain name's file** is in the archive just if it is in the directory. -/
theorem typeBytes?_packed (h : Archive.ofDirectory files root = .ok a) (hname : Layout.IsPlain name)
    (path : Path) (content : Utf8.Bytes) :
    typeBytes? files name (.archive path a) = .ok (some content) ↔
      typeBytes? files name (.directory root) = .ok (some content) := by
  obtain ⟨l, hl, -, htells⟩ := Archive.ofDirectory_entries h
  have hfound : ∀ e, a.find? (Layout.entryPath name) = some e →
      files.read (Layout.fileIn root name) = .ok e.content := by
    intro e he
    have hpath : e.path = Layout.entryPath name := by simpa using List.find?_some he
    rw [Layout.fileIn_eq_join root hname, ← hpath]
    exact (htells e (List.mem_of_find?_eq_some he)).content
  rw [typeBytes?_directory_eq_some_iff, typeBytes?_archive_eq, Except.ok.injEq,
    Option.map_eq_some_iff]
  constructor
  · rintro ⟨e, he, rfl⟩
    exact hfound e he
  · intro hread
    have hlisted := Layout.entryPath_mem_filesBelow hname hl hread
    obtain ⟨e, he⟩ := Option.isSome_iff_exists.1 ((Archive.find?_ofDirectory h hl _).2 hlisted)
    exact ⟨e, he, Except.ok.inj ((hfound e he).symm.trans hread)⟩

/-- **What the directory answers** about a plain name's file, the archive does. -/
theorem typeBytes?_of_directory (h : Archive.ofDirectory files root = .ok a)
    (hname : Layout.IsPlain name) (path : Path) {found : Option Utf8.Bytes}
    (hfound : typeBytes? files name (.directory root) = .ok found) :
    typeBytes? files name (.archive path a) = .ok found := by
  cases found with
  | some content => exact (typeBytes?_packed h hname path content).2 hfound
  | none =>
    cases hentry : a.find? (Layout.entryPath name) with
    | none => rw [typeBytes?_archive_eq, hentry, Option.map_none]
    | some e =>
      have harchive : typeBytes? files name (.archive path a) = .ok (some e.content) := by
        rw [typeBytes?_archive_eq, hentry, Option.map_some]
      have hagain := (typeBytes?_packed h hname path _).1 harchive
      rw [hfound] at hagain
      cases hagain

/-- **The names of the types** are those of the directory. -/
theorem typeNames_packed (h : Archive.ofDirectory files root = .ok a) (path : Path) :
    typeNames files (.archive path a) = typeNames files (.directory root) := by
  obtain ⟨l, hl, hpaths, -⟩ := Archive.ofDirectory_entries h
  have hlines : files.files root = .ok (a.entries.map (·.path)) := by
    rw [FileTree.files, hl, hpaths]
  have hnames : a.entries.filterMap (fun e => Layout.nameOfEntry e.path) =
      (a.entries.map (·.path)).filterMap Layout.nameOfEntry := by
    rw [List.filterMap_map]
    rfl
  rw [typeNames, typeNames, hlines, ok_bind, hnames]
  rfl

end Module.Source

namespace Module

/-- **A packed module** answers with the types of its directory. -/
theorem load_packed (h : Archive.ofDirectory files root = .ok a) (hname : Layout.IsPlain name)
    {m m' : Module} (hm : m.UpToDate files) (hm' : m'.UpToDate files)
    (hsource : m.source = .directory root) (hsource' : m'.source = .archive path a) (t : TypeDef) :
    (m'.load files name).1 = .ok t ↔ (m.load files name).1 = .ok t := by
  have houter : Layout.IsPlain (Name.outermost name) := Layout.isPlain_outermost.2 hname
  rw [hm.load_eq_ok_iff, hm'.load_eq_ok_iff, hsource, hsource']
  simp only [readOutermost?_eq_some_iff, TypeDef.ofBytes_eq_ok_iff,
    Source.typeBytes?_packed h houter path]

end Module

open Mixins.Module (Source)

/-- **Packing preserves a module.** The archive has the type names of the directory. Under a plain
name it has what the directory has there, and a module in the archive, if it is not behind, answers
with the types with which one in the directory does. -/
theorem Archive.ofDirectory_preserves (h : ofDirectory files root = .ok a) (path : Path) :
    (∃ names, Source.typeNames files (.directory root) = .ok names ∧
      Source.typeNames files (.archive path a) = .ok names) ∧
    ∀ name, Layout.IsPlain name →
      (∀ found, Source.typeBytes? files name (.directory root) = .ok found →
        Source.typeBytes? files name (.archive path a) = .ok found) ∧
      ∀ m m' : Module, m.UpToDate files → m'.UpToDate files → m.source = .directory root →
        m'.source = .archive path a →
        ∀ t, (m'.load files name).1 = .ok t ↔ (m.load files name).1 = .ok t := by
  refine ⟨⟨_, (Source.typeNames_packed h path).symm, rfl⟩,
    fun name hname => ⟨fun found hfound => ?_, fun m m' hm hm' hsource hsource' t => ?_⟩⟩
  · exact Source.typeBytes?_of_directory h hname path hfound
  · exact Module.load_packed h hname hm hm' hsource hsource' t

/-- A module with a class `u.N` with a class in it, and with a description of its package. -/
def nestedAndPackage : FileTree :=
  OutputRoot.storing
    [(⟨⟨"m"⟩⟩, { TypeDef.bare "u.N" .classType with nested := [.bare "u.N$I" .classType] }),
      (⟨⟨"m"⟩⟩, .bare "u.package-info" .packageInfo)]

/-- The module can be packed, and its archive has the nested class. -/
theorem Archive.ofDirectory_preserves_nested :
    ∃ a, ofDirectory nestedAndPackage ⟨"m"⟩ = .ok a ∧
      ((Module.ofSource (.archive ⟨"m.twar"⟩ a)).load nestedAndPackage "u.N$I").1 =
        .ok (.bare "u.N$I" .classType) := by
  have hroot : nestedAndPackage.locateDirectory ⟨"m"⟩ = .ok ["m"] := by decide +kernel
  have hshort : ∀ line ∈ nestedAndPackage.filesBelow ["m"],
      (Path.join ⟨"m"⟩ ⟨line⟩).text.utf8ByteSize ≤ FileTree.maxPathSize := by
    intro line hline
    rw [FileTree.filesBelow, (FileTree.sorted_perm _).mem_iff] at hline
    revert line
    decide +kernel
  have hload : ((Module.ofSource (.directory ⟨"m"⟩)).load nestedAndPackage "u.N$I").1 =
      .ok (.bare "u.N$I" .classType) := by decide +kernel
  obtain ⟨a, hpacked⟩ := ofDirectory_isOk hroot hshort
  have hsame := (ofDirectory_preserves hpacked ⟨"m.twar"⟩).2 "u.N$I" (by decide)
  have hupToDate := Module.upToDate_ofSource nestedAndPackage
  exact ⟨a, hpacked, (hsame.2 _ _ (hupToDate _) (hupToDate _) rfl rfl _).2 hload⟩

end Mixins
