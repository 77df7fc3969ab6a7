import Mixins.Proofs.OutputRoot.Apart
import Mixins.Proofs.Pool.Answers

/-!
# Writes beside modules

A module's directory may be the output root, or it may lie elsewhere; as long as neither lies
strictly inside the other, a write changes no file that the module has for another type. A name that
is too long to be looked up is another matter: it is only found to be too long when the directory
that it would be in is there.

* `Beside` — directories of which neither lies strictly inside the other.
* `typeBytes?_write`, `type?_write` — what a module and a pool have for other types is as before.
* `type?_alike` — trees that hold the same nodes.
-/

namespace Mixins

open FileTree (Changed Onward Short)
open Layout (IsPlain namesTo)

variable {root : OutputRoot} {files files' : FileTree} {name : String} {l : Location}
  {own : List String} {x : TypeDef} {source : Module.Source} {pool : Pool}

namespace FileTree

/-- Whether neither location lies strictly inside the other. -/
def Beside (m r : Location) : Prop := m <+: r ∨ r <+: m → m = r

instance (m r : Location) : Decidable (Beside m r) :=
  inferInstanceAs (Decidable (m <+: r ∨ r <+: m → m = r))

theorem Beside.symm {m r : Location} (h : Beside m r) : Beside r m := fun hor => (h hor.symm).symm

/-- A location inside both is the same way off both. -/
theorem Beside.of_leads {m r a b : Location} (h : Beside m r) (hleads : r ++ a <+: m ++ b) :
    m = r ∧ a <+: b := by
  have hr : r <+: m ++ b := (List.prefix_append r a).trans hleads
  have hsame := h (List.prefix_or_prefix_of_prefix (List.prefix_append m b) hr)
  rw [hsame, List.prefix_append_right_inj] at hleads
  exact ⟨hsame, hleads⟩

/-- Where a path ends that goes on through a way. -/
theorem Onward.endsAt {path : Path} {m : Location} (h : Onward files path l own) (hne : own ≠ [])
    (hends : files.EndsAt path m) : m = l ++ own := by
  obtain ⟨slash, hending⟩ := hends
  obtain ⟨-, before, last, dir, hsplit, hdir, -, -, -, rfl, -⟩ := ending_eq_name_iff.1 hending
  obtain ⟨init, hnames, hinit⟩ := h.names
  obtain ⟨way, last', rfl⟩ := (List.eq_nil_or_concat own).resolve_left hne
  rw [hsplit, List.concat_eq_append, ← List.append_assoc] at hnames
  obtain ⟨rfl, hlast⟩ := List.append_inj' hnames (by simp)
  rw [List.foldlM_append, hinit, ok_bind] at hdir
  rw [foldlM_step_ordinary (fun name hname => h.ordinary name (by simp [hname])) hdir, hlast]
  simp

end FileTree

/-- Whether the module's files lie neither in the directory at `r` nor around it, except in that
directory itself. The module's directory need not be there yet. -/
def Module.Source.Beside (files : FileTree) (r : Location) : Module.Source → Prop
  | .directory dir => ∃ l way, Onward files dir l way ∧ Short way ∧ FileTree.Beside (l ++ way) r
  | .archive _ _ => True

theorem Module.Source.Beside.changed {on : Location → Prop} {r : Location}
    (h : source.Beside files r) (hchanged : Changed on files files') : source.Beside files' r := by
  cases source with
  | archive path content => trivial
  | directory dir =>
    obtain ⟨m, way, hdir, hshort, hbeside⟩ := h
    exact ⟨m, way, hdir.changed hchanged, hshort, hbeside⟩

/-- An archive does not change with the files. -/
theorem Module.Source.typeBytes?_archive (files files' : FileTree) (name : String) (path : Path)
    (content : Archive) : typeBytes? files name (.archive path content) =
      typeBytes? files' name (.archive path content) := by
  unfold typeBytes?
  rfl

/-- Trees that hold the same nodes have the same files. -/
theorem Module.Source.typeBytes?_alike (h : FileTree.Alike files files') (name : String)
    (source : Module.Source) : source.typeBytes? files name = source.typeBytes? files' name := by
  cases source with
  | archive path content => exact typeBytes?_archive ..
  | directory dir =>
    unfold typeBytes?
    dsimp only
    rw [h.read]

/-- A file that is missing, or cannot be read. -/
theorem Module.Source.typeBytes?_of_read (files : FileTree) (dir : Path) (name : String) :
    (files.read (Layout.fileIn dir name) = .error .notFound →
        typeBytes? files name (.directory dir) = .ok none) ∧
      ∀ cause ≠ .notFound, files.read (Layout.fileIn dir name) = .error cause →
        typeBytes? files name (.directory dir) =
          .error (.file (Layout.fileIn dir name) (.system cause)) := by
  unfold typeBytes?
  dsimp only
  refine ⟨fun hread => by rw [hread], fun cause hcause hread => ?_⟩
  rw [hread]
  cases cause with
  | notFound => exact absurd rfl hcause
  | _ => rfl

/-- A file in a module's directory that is read. -/
theorem Module.Source.typeBytes?_eq_some {dir : Path} {content : Utf8.Bytes} :
    typeBytes? files name (.directory dir) = .ok (some content) ↔
      files.read (Layout.fileIn dir name) = .ok content := by
  unfold typeBytes?
  dsimp only
  split <;> simp [*]

/-- A file in a module's directory that is passed over. -/
theorem Module.Source.typeBytes?_eq_none {dir : Path} :
    typeBytes? files name (.directory dir) = .ok none ↔
      files.read (Layout.fileIn dir name) = .error .notFound := by
  obtain ⟨hmissing, hrefused⟩ := typeBytes?_of_read files dir name
  refine ⟨fun hnone => ?_, hmissing⟩
  cases hread : files.read (Layout.fileIn dir name) with
  | ok content =>
    rw [typeBytes?_eq_some.2 hread] at hnone
    cases hnone
  | error cause =>
    by_contra hcause
    rw [hrefused cause (fun heq => hcause (by rw [heq])) hread] at hnone
    cases hnone

/-- Whether the type's file can be looked up. -/
def Layout.IsShort (name : String) : Prop := Short (namesTo name Layout.extension.toList)

instance (name : String) : Decidable (Layout.IsShort name) :=
  inferInstanceAs (Decidable (Short _))

namespace OutputRoot

/-- A write changes nothing but directories that were missing, and files of the type. -/
theorem write_changed_own (h : Onward files root.dir l own) (hx : IsPlain x.name) :
    Changed (fun m => ∃ extension, m = l ++ own ++ namesTo x.name extension) files
      (root.write files x).1 := by
  have hafter := onward_write h x
  have hown := hafter.below (Layout.below_fileIn root.dir hx)
  have hbeside := hafter.below (Layout.below_temporary root.dir hx)
  refine (write_changed root files x).mono fun m hm => ?_
  rcases hm with htemporary | hfile
  · exact ⟨_, by rw [hbeside.endsAt (by simp [Layout.namesTo_eq]) htemporary, List.append_assoc]⟩
  · exact ⟨_, by rw [hown.endsAt (by simp [Layout.namesTo_eq]) hfile, List.append_assoc]⟩

/-- **The files of other types** below a directory beside the output root are read as before. -/
theorem read_fileIn_write (h : Onward files root.dir l own) (hx : IsPlain x.name) {dir : Path}
    {m : Location} {way : List String} (hdir : Onward files dir m way) (hway : Short way)
    (hbeside : FileTree.Beside (m ++ way) (l ++ own)) (hname : IsPlain name)
    (hshort : Layout.IsShort name) (hne : Name.outermost name ≠ Name.outermost x.name) :
    (root.write files x).1.read (Layout.fileIn dir name) =
      files.read (Layout.fileIn dir name) := by
  have hpath := hdir.below (Layout.below_fileIn dir hname)
  refine (write_changed_own h hx).read_eq hpath
    (fun part hpart => (List.mem_append.1 hpart).elim (hway part) (hshort part)) ?_ ?_
  · rintro part - hpart ⟨extension, hplace⟩
    have hleads : l ++ own ++ namesTo x.name extension <+:
        m ++ way ++ namesTo name Layout.extension.toList := by
      rw [← hplace, List.append_assoc]
      exact (List.prefix_append_right_inj m).2 hpart
    exact hne (Layout.outermost_of_namesTo_leads hx hname (hbeside.of_leads hleads).2).symm
  · obtain ⟨effect, _, htouch, hwrite⟩ := write_uniform files root l own hx
    rw [(hwrite files h rfl).1.found]
    cases heffect : effect (m ++ (way ++ namesTo name Layout.extension.toList)) with
    | none => rfl
    | some node =>
      rw [← List.append_assoc] at heffect
      rcases htouch _ node heffect with ⟨hmade, -⟩ | ⟨extension, hplace⟩
      · obtain ⟨part, -, hpart, hsame, -⟩ := FileTree.mem_clear hmade
        have hleads : m ++ way ++ namesTo name Layout.extension.toList <+:
            l ++ own ++ Layout.directoriesTo x.name := by
          rw [hsame, List.append_assoc]
          exact (List.prefix_append_right_inj l).2 hpart
        exact absurd (hbeside.symm.of_leads hleads).2 (Layout.not_namesTo_leads hx)
      · have hleads : l ++ own ++ namesTo x.name extension <+:
            m ++ way ++ namesTo name Layout.extension.toList := hplace ▸ List.prefix_rfl
        exact absurd (Layout.outermost_of_namesTo_leads hx hname
          (hbeside.of_leads hleads).2).symm hne

/-- **A module's files of other types** are as before. -/
theorem typeBytes?_write (h : Onward files root.dir l own)
    (hsource : source.Beside files (l ++ own)) (hx : IsPlain x.name) (hname : IsPlain name)
    (hshort : Layout.IsShort name) (hne : Name.outermost name ≠ Name.outermost x.name) :
    source.typeBytes? (root.write files x).1 name = source.typeBytes? files name := by
  cases source with
  | archive path content => exact Module.Source.typeBytes?_archive ..
  | directory dir =>
    obtain ⟨m, way, hdir, hway, hbeside⟩ := hsource
    have hread := read_fileIn_write h hx hdir hway hbeside hname hshort hne
    unfold Module.Source.typeBytes?
    dsimp only
    rw [hread]

end OutputRoot

namespace Pool

theorem firstType?_congr {outer : String} {sources : List Module.Source}
    (h : ∀ source ∈ sources, source.typeBytes? files' outer = source.typeBytes? files outer) :
    firstType? files' outer sources = firstType? files outer sources := by
  induction sources with
  | nil => rfl
  | cons source rest ih =>
    obtain ⟨hsource, hrest⟩ := List.forall_mem_cons.1 h
    rw [firstType?, firstType?, hsource, ih hrest]

theorem type?_congr {outer : String}
    (h : ∀ source ∈ pool.sources, source.typeBytes? files' outer = source.typeBytes? files outer) :
    pool.type? files' outer = pool.type? files outer := by
  unfold type?
  rw [firstType?_congr h]

/-- **What a pool has under other names** is as before. -/
theorem type?_write (h : Onward files root.dir l own)
    (hsources : ∀ source ∈ pool.sources, source.Beside files (l ++ own)) (hx : IsPlain x.name)
    (hname : IsPlain name) (hshort : Layout.IsShort name)
    (hne : Name.outermost name ≠ Name.outermost x.name) :
    pool.type? (root.write files x).1 name = pool.type? files name :=
  type?_congr fun source hsource =>
    OutputRoot.typeBytes?_write h (hsources source hsource) hx hname hshort hne

/-- **Trees that hold the same nodes** have the same types for a pool. -/
theorem type?_alike (h : FileTree.Alike files files') (pool : Pool) (outer : String) :
    pool.type? files outer = pool.type? files' outer :=
  type?_congr fun source _ => source.typeBytes?_alike h outer

end Pool

end Mixins
