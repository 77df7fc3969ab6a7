import Mixins.Proofs.OutputRoot.Modules
import Mixins.Proofs.Pool.Classpath
import Mixins.Proofs.Pool.Growth

/-!
# A pool that is ahead of the files

A pool reads a type from the first module that has it. If that module is the output root, then what
is resident under a name is at least what the output root has there: it was read from there, or was
written there, or it has been extended since.

* `typeAt?` — the type in a file.
* `OutputFirst` — modules of which the output root is the first.
* `Ahead` — a pool that has at least what the files have.
* `OutputFirst.type?` — what such a pool answers from.
* `OutputFirst.write` — a write leaves the modules so, and the pool ahead.
-/

namespace Mixins

open FileTree (Changed Onward)
open Layout (IsPlain namesTo)

variable {root : OutputRoot} {files files' : FileTree} {pool : Pool} {name : String}
  {l r : Location} {own : List String} {t t' x : TypeDef} {sources : List Module.Source}

/-! ## Files that hold types -/

/-- The type that a file at the location holds. -/
def FileTree.typeAt? (files : FileTree) (l : Location) : Option TypeDef :=
  match files.find? l with
  | some (.file content) => (TypeDef.ofBytes content "").toOption
  | _ => none

theorem FileTree.typeAt?_eq_some : files.typeAt? l = some t ↔
    ∃ content context, files.find? l = some (.file content) ∧
      TypeDef.ofBytes content context = .ok t := by
  unfold typeAt?
  cases files.find? l with
  | none => simp
  | some node =>
    cases node with
    | directory => simp
    | file content =>
      rw [toOption_eq_some]
      constructor
      · exact fun hof => ⟨content, "", rfl, hof⟩
      · rintro ⟨_, context, ⟨⟩, hof⟩
        exact TypeDef.ofBytes_congr hof ""

namespace Layout

/-- Whether the location is one of a file with the extension of type files. -/
def IsTypeFile (l : Location) : Prop :=
  ∃ dir stem, l = dir ++ [String.ofList (stem ++ '.' :: extension.toList)]

/-- Where the type's file lies, for a module's directory at `r`. -/
def typeFile (r : Location) (name : String) : Location := r ++ namesTo name extension.toList

theorem isTypeFile_typeFile (r : Location) (name : String) : IsTypeFile (typeFile r name) := by
  refine ⟨r ++ directoriesTo name, (segments name).getLast?.getD [], ?_⟩
  rw [typeFile, namesTo_eq, fileName, List.append_assoc]

theorem typeFile_outermost (r : Location) (name : String) :
    typeFile r (Name.outermost name) = typeFile r name := by
  simp only [typeFile, namesTo, segments, Name.outermost_outermost]

/-- A temporary sibling is no type file. -/
theorem IsTypeFile.ne_temporary (h : IsTypeFile l) (r : Location) (name : String) :
    l ≠ r ++ namesTo name temporaryExtension := by
  rintro rfl
  obtain ⟨dir, stem, hsame⟩ := h
  rw [namesTo_eq, ← List.append_assoc] at hsame
  obtain ⟨-, hlast⟩ := List.append_inj' hsame (by simp)
  have hchars := String.ofList_inj.1 (List.cons.inj hlast).1
  -- the two extensions do not end alike
  have hend := congrArg List.getLast? hchars
  rw [List.getLast?_append_of_ne_nil _ (by simp),
    List.getLast?_append_of_ne_nil _ (by simp)] at hend
  revert hend
  decide

end Layout

/-! ## What a write does to type files -/

namespace OutputRoot

/-- A type that has been written is an outermost one, and it is in its file. -/
theorem typeAt?_write {path : Path} (h : Onward files root.dir l own) (hx : IsPlain x.name)
    (hdone : (root.write files x).2 = .ok path) :
    Name.outermost x.name = x.name ∧
      (root.write files x).1.typeAt? (Layout.typeFile (l ++ own) x.name) = some x := by
  have hafter := onward_write h x
  cases hwrite : root.write files x with
  | mk files' done =>
    rw [hwrite] at hafter hdone
    dsimp only at hdone
    subst hdone
    obtain ⟨houtermost, -, hread, -⟩ := write_eq_ok hwrite
    have houter := Name.isOutermost_iff.1 houtermost
    obtain ⟨content, hcontent, hof⟩ := read_eq_ok_iff.1 (hread x.name houter)
    have hpath := hafter.below (Layout.below_fileIn root.dir hx)
    obtain ⟨-, -, hfile⟩ := hpath.read_eq_ok_iff.1 hcontent
    refine ⟨houter, FileTree.typeAt?_eq_some.2 ⟨content, _, ?_, hof⟩⟩
    rw [Layout.typeFile, List.append_assoc]
    exact hfile

/-- **Other type files** are as before, and so is the type's own one if it could not be written. -/
theorem file_write_iff (h : Onward files root.dir l own) (hx : IsPlain x.name) {m : Location}
    (hm : Layout.IsTypeFile m)
    (hother : ∀ path, (root.write files x).2 = .ok path → m ≠ Layout.typeFile (l ++ own) x.name)
    (content : Utf8.Bytes) :
    (root.write files x).1.find? m = some (.file content) ↔
      files.find? m = some (.file content) := by
  have hafter := onward_write h x
  have htemporary :
      ¬ (root.write files x).1.EndsAt (Path.temporary (root.pathFor x.name)) m := by
    intro hends
    have hbeside := hafter.below (Layout.below_temporary root.dir hx)
    refine hm.ne_temporary (l ++ own) x.name ?_
    rw [hbeside.endsAt (by simp [Layout.namesTo_eq]) hends, List.append_assoc]
    rfl
  cases hwrite : root.write files x with
  | mk files' done =>
    rw [hwrite] at hafter hother htemporary
    cases done with
    | error cause => exact (write_eq_error hwrite).file_iff htemporary content
    | ok path =>
      obtain ⟨-, hpath, -, hchanged⟩ := write_eq_ok hwrite
      rw [hpath] at hchanged
      refine hchanged.file_iff (not_or.2 ⟨htemporary, fun hends => hother path rfl ?_⟩) content
      have hown := hafter.below (Layout.below_fileIn root.dir hx)
      rw [hown.endsAt (by simp [Layout.namesTo_eq]) hends, Layout.typeFile, List.append_assoc]

end OutputRoot

/-! ## Modules of which the output root is the first -/

/-- Whether the output root is the first of the modules, no other module's directory lies in it or
around it, and each type file declares the type that it is there for. -/
structure OutputFirst (files : FileTree) (root : OutputRoot) (r : Location)
    (sources : List Module.Source) : Prop where
  place : ∃ l own, Onward files root.dir l own ∧ r = l ++ own
  first : ∃ dir rest l way, sources = .directory dir :: rest ∧ Onward files dir l way ∧ r = l ++ way
  beside : ∀ dir, .directory dir ∈ sources →
    ∃ l way, Onward files dir l way ∧ FileTree.Beside (l ++ way) r
  declares : ∀ source ∈ sources, ∀ name, IsPlain name →
    source.Declares files (Name.outermost name)

/-- Whether each resident type declares the name that it is found by, and is at least what the
output root has under that name. -/
structure Pool.Ahead (files : FileTree) (r : Location) (pool : Pool) : Prop where
  named : ∀ name t, IsPlain name → pool.residentType? (Name.outermost name) = some t →
    t.name = Name.outermost name
  atLeast : ∀ name t x, IsPlain name → files.typeAt? (Layout.typeFile r name) = some t →
    pool.residentType? (Name.outermost name) = some x → t.Extends x

/-- A new pool has nothing yet. -/
theorem Pool.ahead_ofSources (files : FileTree) (r : Location) (sources : List Module.Source) :
    (ofSources sources).Ahead files r :=
  ⟨fun _ _ _ h => (nomatch h), fun _ _ _ _ _ h => (nomatch h)⟩

/-- The type that the sources have is in one of their files. -/
theorem Pool.firstType?_eq_some {outer : String}
    (h : firstType? files outer sources = .ok (some t)) : ∃ source ∈ sources, ∃ content,
      source.typeBytes? files outer = .ok (some content) ∧
        TypeDef.ofBytes content (source.context outer) = .ok t := by
  induction sources with
  | nil => cases h
  | cons source rest ih =>
    rw [firstType?, bind_eq_ok] at h
    obtain ⟨found, hfound, h⟩ := h
    cases found with
    | none =>
      obtain ⟨source', hmem, hfile⟩ := ih h
      exact ⟨source', List.mem_cons_of_mem _ hmem, hfile⟩
    | some content =>
      simp only [bind_eq_ok, pure_eq_ok] at h
      obtain ⟨t', hof, heq⟩ := h
      obtain rfl : t' = t := Option.some.inj heq
      exact ⟨source, List.mem_cons_self, content, hfound, hof⟩

/-- What the output root has under a name is what the modules have. -/
theorem OutputFirst.firstType?_eq (h : OutputFirst files root r sources) (hname : IsPlain name)
    (ht : files.typeAt? (Layout.typeFile r name) = some t)
    (hx : Pool.firstType? files (Name.outermost name) sources = .ok (some x)) : t = x := by
  obtain ⟨dir, rest, l, way, rfl, hdir, rfl⟩ := h.first
  have hplain := Layout.isPlain_outermost.2 hname
  have hpath := hdir.below (Layout.below_fileIn dir hplain)
  rw [← Layout.typeFile_outermost, Layout.typeFile, List.append_assoc] at ht
  obtain ⟨content, context, hfile, hof⟩ := FileTree.typeAt?_eq_some.1 ht
  rw [Pool.firstType?, bind_eq_ok] at hx
  obtain ⟨found, hfound, hx⟩ := hx
  cases found with
  | none =>
    have hmissing := Module.Source.typeBytes?_eq_none.1 hfound
    exact absurd hmissing (hpath.read_ne_notFound (by simp [Layout.namesTo_eq]) hfile)
  | some content' =>
    simp only [bind_eq_ok, pure_eq_ok] at hx
    obtain ⟨x', hof', heq⟩ := hx
    obtain rfl : x' = x := Option.some.inj heq
    obtain ⟨-, -, hfile'⟩ :=
      hpath.read_eq_ok_iff.1 (Module.Source.typeBytes?_eq_some.1 hfound)
    obtain rfl : content = content' := by simpa using hfile.symm.trans hfile'
    exact Except.ok.inj ((TypeDef.ofBytes_congr hof _).symm.trans hof')

/-- **What a pool that is ahead answers from** declares its name, and is at least what the output
root has. -/
theorem OutputFirst.type? (h : OutputFirst files root r pool.sources) (hahead : pool.Ahead files r)
    (hname : IsPlain name) (hx : pool.type? files (Name.outermost name) = .ok (some x)) :
    x.name = Name.outermost name ∧
      ∀ t, files.typeAt? (Layout.typeFile r name) = some t → t.Extends x := by
  unfold Pool.type? at hx
  cases hresident : pool.residentType? (Name.outermost name) with
  | some x' =>
    rw [hresident] at hx
    obtain rfl : x' = x := by simpa using hx
    exact ⟨hahead.named name x' hname hresident,
      fun t ht => hahead.atLeast name t x' hname ht hresident⟩
  | none =>
    rw [hresident] at hx
    obtain ⟨source, hsource, content, hfile, hof⟩ := Pool.firstType?_eq_some hx
    refine ⟨h.declares source hsource name hname content x hfile hof, fun t ht => ?_⟩
    rw [h.firstType?_eq hname ht hx]
    exact .refl x

/-- What extends what a pool that is ahead has, is ahead itself. -/
theorem Pool.Ahead.extended {pool' : Pool} (h : OutputFirst files root r pool.sources)
    (hahead : pool.Ahead files r) (hextends : Pool.Extends files pool pool') :
    pool'.Ahead files r := by
  have horigin : ∀ name x, pool'.residentType? (Name.outermost name) = some x →
      ∃ x₀, pool.type? files (Name.outermost name) = .ok (some x₀) ∧ x₀.Extends x :=
    fun name x hx => hextends _ x (Pool.type?_of_resident hx)
  refine ⟨fun name x hname hx => ?_, fun name t x hname ht hx => ?_⟩
  · obtain ⟨x₀, hx₀, hext⟩ := horigin name x hx
    rw [hext.name]
    exact (h.type? hahead hname hx₀).1
  · obtain ⟨x₀, hx₀, hext⟩ := horigin name x hx
    exact ((h.type? hahead hname hx₀).2 t ht).trans hext

/-! ## After a write -/

theorem OutputRoot.typeAt?_write_iff (h : Onward files root.dir l own) (hx : IsPlain x.name)
    {m : Location} (hm : Layout.IsTypeFile m)
    (hother : ¬ ((∃ path, (root.write files x).2 = .ok path) ∧
      m = Layout.typeFile (l ++ own) x.name)) :
    (root.write files x).1.typeAt? m = some t ↔ files.typeAt? m = some t := by
  have hfile := file_write_iff h hx hm fun path hdone hown => hother ⟨⟨path, hdone⟩, hown⟩
  simp only [FileTree.typeAt?_eq_some, hfile]

/-- The modules are still so after a write: what is written declares its name. -/
theorem OutputFirst.write (h : OutputFirst files root r sources) (hx : IsPlain x.name) :
    OutputFirst (root.write files x).1 root r sources := by
  have hchanged := OutputRoot.write_changed root files x
  obtain ⟨l, own, hroot, rfl⟩ := h.place
  obtain ⟨dir, rest, m, way, hsources, hdir, hsame⟩ := h.first
  refine ⟨⟨l, own, OutputRoot.onward_write hroot x, rfl⟩,
    ⟨dir, rest, m, way, hsources, hdir.changed hchanged, hsame⟩,
    fun dir hdir => ?_, fun source hsource name hname content t hfile hof => ?_⟩
  · obtain ⟨m, way, hdir, hbeside⟩ := h.beside dir hdir
    exact ⟨m, way, hdir.changed hchanged, hbeside⟩
  cases source with
  | archive path archive =>
    rw [Module.Source.typeBytes?_archive _ files] at hfile
    exact h.declares _ hsource name hname content t hfile hof
  | directory dir =>
    obtain ⟨m, way, hdir, hbeside⟩ := h.beside dir hsource
    have hplain := Layout.isPlain_outermost.2 hname
    have hpath := hdir.below (Layout.below_fileIn dir hplain)
    obtain ⟨htext, hslash, hfound⟩ := (hpath.changed hchanged).read_eq_ok_iff.1
      (Module.Source.typeBytes?_eq_some.1 hfile)
    rw [← List.append_assoc, ← Layout.typeFile, Layout.typeFile_outermost] at hfound
    by_cases hown : (∃ path, (root.write files x).2 = .ok path) ∧
        Layout.typeFile (m ++ way) name = Layout.typeFile (l ++ own) x.name
    · obtain ⟨⟨path, hdone⟩, hlocation⟩ := hown
      obtain ⟨houter, hwritten⟩ := OutputRoot.typeAt?_write hroot hx hdone
      rw [hlocation] at hfound
      have hread := FileTree.typeAt?_eq_some.2 ⟨content, _, hfound, hof⟩
      obtain rfl : t = x := Option.some.inj (hread.symm.trans hwritten)
      have hleads : l ++ own ++ namesTo t.name Layout.extension.toList <+:
          m ++ way ++ namesTo name Layout.extension.toList := by
        unfold Layout.typeFile at hlocation
        simp only [hlocation, List.prefix_rfl]
      rw [← houter]
      exact Layout.outermost_of_namesTo_leads hx hname (hbeside.of_leads hleads).2
    · have hbefore := (OutputRoot.file_write_iff hroot hx (Layout.isTypeFile_typeFile _ _)
        (fun path hdone hlocation => hown ⟨⟨path, hdone⟩, hlocation⟩) content).1 hfound
      refine h.declares _ hsource name hname content t ?_ hof
      rw [← Layout.typeFile_outermost, Layout.typeFile, List.append_assoc] at hbefore
      exact Module.Source.typeBytes?_eq_some.2
        (hpath.read_eq_ok_iff.2 ⟨htext, hslash, hbefore⟩)

/-- **The pool is still ahead after a write** of what it has itself. -/
theorem Pool.Ahead.write (h : OutputFirst files root r sources) (hahead : pool.Ahead files r)
    (hx : IsPlain x.name) (hresident : pool.residentType? (Name.outermost x.name) = some x) :
    pool.Ahead (root.write files x).1 r := by
  obtain ⟨l, own, hroot, rfl⟩ := h.place
  refine ⟨hahead.named, fun name t y hname ht hy => ?_⟩
  by_cases hown : (∃ path, (root.write files x).2 = .ok path) ∧
      Layout.typeFile (l ++ own) name = Layout.typeFile (l ++ own) x.name
  · obtain ⟨⟨path, hdone⟩, hlocation⟩ := hown
    obtain ⟨-, hwritten⟩ := OutputRoot.typeAt?_write hroot hx hdone
    have houter := (Layout.namesTo_inj hname (by decide) (List.append_cancel_left hlocation)).1
    rw [hlocation] at ht
    rw [houter, hresident] at hy
    obtain rfl := Option.some.inj (ht.symm.trans hwritten)
    obtain rfl := Option.some.inj hy
    exact .refl t
  · have hfile := Layout.isTypeFile_typeFile (l ++ own) name
    have hbefore := (OutputRoot.typeAt?_write_iff hroot hx hfile hown).1 ht
    exact hahead.atLeast name t y hname hbefore hy

/-- **Type files only gain by a write** of what a pool has that is ahead. -/
theorem Pool.Ahead.typeAt?_write (h : OutputFirst files root r sources)
    (hahead : pool.Ahead files r) (hx : IsPlain x.name)
    (hresident : pool.residentType? (Name.outermost x.name) = some x) {m : Location}
    (hm : Layout.IsTypeFile m) (ht : files.typeAt? m = some t) :
    ∃ t', (root.write files x).1.typeAt? m = some t' ∧ t.Extends t' := by
  obtain ⟨l, own, hroot, rfl⟩ := h.place
  by_cases hown : (∃ path, (root.write files x).2 = .ok path) ∧
      m = Layout.typeFile (l ++ own) x.name
  · obtain ⟨⟨path, hdone⟩, rfl⟩ := hown
    exact ⟨x, (OutputRoot.typeAt?_write hroot hx hdone).2,
      hahead.atLeast x.name t x hx ht hresident⟩
  · exact ⟨t, (OutputRoot.typeAt?_write_iff hroot hx hm hown).2 ht, .refl t⟩

/-! ## Trees that have been written -/

/-- Before anything is there, no file declares anything. -/
theorem OutputFirst.ofEmpty (h : Onward .empty root.dir [] own) :
    OutputFirst .empty root own [.directory root.dir] := by
  refine ⟨⟨[], own, h, rfl⟩, ⟨root.dir, [], [], own, rfl, h, rfl⟩, fun dir hdir => ?_,
    fun source hsource name hname content t hfile _ => ?_⟩
  · obtain rfl := Module.Source.directory.inj (List.mem_singleton.1 hdir)
    exact ⟨[], own, h, fun _ => rfl⟩
  · rw [List.mem_singleton.1 hsource] at hfile
    have hpath := h.below (Layout.below_fileIn root.dir (Layout.isPlain_outermost.2 hname))
    obtain ⟨-, -, hfound⟩ := hpath.read_eq_ok_iff.1 (Module.Source.typeBytes?_eq_some.1 hfile)
    simp [FileTree.find?, FileTree.empty, Layout.namesTo_eq] at hfound

/-- Types that are written one after the other, each to the file of its name. -/
theorem OutputFirst.writeAll (h : OutputFirst files root r sources) {types : List TypeDef}
    (hplain : ∀ x ∈ types, IsPlain x.name) :
    OutputFirst (types.foldl (fun files x => (root.write files x).1) files) root r sources := by
  induction types generalizing files with
  | nil => exact h
  | cons x types ih =>
    obtain ⟨hx, hrest⟩ := List.forall_mem_cons.1 hplain
    exact ih (h.write hx) hrest

/-- What has been stored in the output root alone is declared under its own name. -/
theorem OutputFirst.storing (h : Onward .empty root.dir [] own) {types : List TypeDef}
    (hplain : ∀ x ∈ types, IsPlain x.name) :
    OutputFirst (OutputRoot.storing (types.map (root, ·))) root own [.directory root.dir] := by
  unfold OutputRoot.storing
  rw [List.foldl_map]
  exact (OutputFirst.ofEmpty h).writeAll hplain

end Mixins
