import Mixins.OutputRoot
import Mixins.Proofs.Layout
import Mixins.Proofs.OutermostName
import Mixins.Proofs.Merge.Extension
import Mixins.Proofs.Wire.TypeFile

/-!
# Writing to the output root

* `write_eq_ok` — a type that has been written is read back, and no other file has changed.
* `write_eq_error` — a type that cannot be written changes no type file.
* `read_write` — the files of other types are read as before.
* `Holds` — a file that still declares what a type declares.
-/

namespace Mixins.OutputRoot

open FileTree (Changed)

variable {root : OutputRoot} {files files' : FileTree} {t : TypeDef}

theorem pathFor_outermost (root : OutputRoot) (name : String) :
    root.pathFor (Name.outermost name) = root.pathFor name := by
  simp only [pathFor, Layout.fileIn, Layout.filePath, Name.outermost_outermost]

theorem read_eq_ok_iff {name : String} : root.read files name = .ok t ↔
    ∃ content, files.read (root.pathFor name) = .ok content ∧
      TypeDef.ofBytes content (root.pathFor name).text = .ok t := by
  unfold read
  dsimp only
  constructor
  · intro h
    split at h
    · rename_i content hread
      exact ⟨content, hread, h⟩
    · cases h
    · cases h
  · rintro ⟨content, hread, h⟩
    rw [hread]
    exact h

theorem read_congr {name other : String} (h : Name.outermost name = Name.outermost other) :
    root.read files name = .ok t ↔ root.read files other = .ok t := by
  rw [read_eq_ok_iff, read_eq_ok_iff, ← pathFor_outermost root name, h, pathFor_outermost]

/-- **A type that has been written is read back.** Only its file and the temporary sibling
change. -/
theorem write_eq_ok {path : Path} (h : root.write files t = (files', .ok path)) :
    Name.isOutermost t.name = true ∧ path = root.pathFor t.name ∧
      (∀ name, Name.outermost name = t.name → root.read files' name = .ok t) ∧
      Changed (fun l => files'.EndsAt (Path.temporary path) l ∨ files'.EndsAt path l)
        files files' := by
  unfold write writeTo at h
  cases hname : Name.isOutermost t.name with
  | false => simp [hname] at h
  | true =>
    cases hbytes : t.toBytes with
    | error cause => simp [hname, hbytes] at h
    | ok content =>
      simp only [hname, hbytes, Bool.not_true, Bool.false_eq_true, if_false] at h
      cases hreplace : (FileTree.system none).replace files (root.pathFor t.name) content with
      | mk files₁ done =>
        rw [hreplace] at h
        cases done with
        | error cause => simp at h
        | ok _ =>
          simp only [Prod.mk.injEq, Except.ok.injEq] at h
          obtain ⟨rfl, rfl⟩ := h
          obtain ⟨hchanged, hread⟩ := FileTree.replace_eq_ok hreplace
          refine ⟨rfl, rfl, fun name houter => read_eq_ok_iff.2 ⟨content, ?_,
            TypeDef.ofBytes_of_toBytes hbytes _⟩, hchanged⟩
          rw [← pathFor_outermost root name, houter]
          exact hread

/-- **A type that cannot be written** leaves at most a temporary file. -/
theorem write_eq_error {cause : Failure} (h : root.write files t = (files', .error cause)) :
    Changed (files'.EndsAt (Path.temporary (root.pathFor t.name))) files files' := by
  unfold write writeTo at h
  split at h
  · simp only [Prod.mk.injEq] at h
    exact h.1 ▸ .refl _ files
  · cases hbytes : t.toBytes with
    | error cause =>
      simp only [hbytes, Prod.mk.injEq] at h
      exact h.1 ▸ .refl _ files
    | ok content =>
      simp only [hbytes] at h
      cases hreplace : (FileTree.system none).replace files (root.pathFor t.name) content with
      | mk files₁ done =>
        rw [hreplace] at h
        cases done with
        | error cause =>
          simp only [Prod.mk.injEq] at h
          exact h.1 ▸ FileTree.replace_eq_error hreplace
        | ok _ => simp at h

/-- Whether it succeeds or not, a write changes no file but the type's own and the temporary
sibling. -/
theorem write_changed (root : OutputRoot) (files : FileTree) (t : TypeDef) :
    Changed (fun l => (root.write files t).1.EndsAt (Path.temporary (root.pathFor t.name)) l ∨
      (root.write files t).1.EndsAt (root.pathFor t.name) l) files (root.write files t).1 := by
  cases hwrite : root.write files t with
  | mk files' done =>
    cases done with
    | error cause => exact (write_eq_error hwrite).mono fun l hl => .inl hl
    | ok path =>
      obtain ⟨-, hpath, -, hchanged⟩ := write_eq_ok hwrite
      rw [hpath] at hchanged
      exact hchanged

/-- **The files of other types** are read as before, and so is the type's own file if it could not
be written. -/
theorem read_write {name : String} {x : TypeDef} {done : Except Failure Path}
    (h : root.write files x = (files', done)) (hname : Layout.IsPlain name)
    (hx : Layout.IsPlain x.name)
    (hother : ∀ path, done = .ok path → Name.outermost name ≠ Name.outermost x.name)
    (hread : root.read files name = .ok t) : root.read files' name = .ok t := by
  have hchanged : Changed (fun l => files'.EndsAt (Path.temporary (root.pathFor x.name)) l ∨
      (∃ path, done = .ok path) ∧ files'.EndsAt (root.pathFor x.name) l) files files' := by
    cases done with
    | error cause => exact (write_eq_error h).mono fun l hl => .inl hl
    | ok path =>
      obtain ⟨-, hpath, -, hwritten⟩ := write_eq_ok h
      rw [hpath] at hwritten
      exact hwritten.mono fun l hl => hl.imp_right fun hl => ⟨⟨_, rfl⟩, hl⟩
  obtain ⟨content, hfile, hdecoded⟩ := read_eq_ok_iff.1 hread
  obtain ⟨l, hlocate, hfound⟩ := FileTree.read_eq_ok_iff.1 hfile
  have hbelow : FileTree.Below root.dir (root.pathFor name) _ := Layout.below_fileIn root.dir hname
  have hfile' : FileTree.Below root.dir (root.pathFor x.name) _ := Layout.below_fileIn root.dir hx
  have htemporary' : FileTree.Below root.dir (Path.temporary (root.pathFor x.name)) _ :=
    Layout.below_temporary root.dir hx
  have hdot : '.' ∉ Layout.extension.toList := by decide
  refine read_eq_ok_iff.2 ⟨content, hchanged.read ?_ hlocate hfound, hdecoded⟩
  rintro (htemporary | ⟨⟨path, hok⟩, hpath⟩)
  · have hsame := hchanged.own_eq hbelow htemporary'
      (Layout.namesTo_ne_nil _ _) (Layout.namesTo_ne_nil _ _) hlocate htemporary
    exact absurd (Layout.namesTo_inj hname hdot hsame).2 (by decide)
  · have hsame := hchanged.own_eq hbelow hfile'
      (Layout.namesTo_ne_nil _ _) (Layout.namesTo_ne_nil _ _) hlocate hpath
    exact hother path hok (Layout.namesTo_inj hname hdot hsame).1

/-- Whether the type's file holds an extension of `t`. -/
def Holds (root : OutputRoot) (files : FileTree) (name : String) (t : TypeDef) : Prop :=
  ∃ t', root.read files name = .ok t' ∧ t.Extends t'

/-- A tree to which the types have been written, each to its own root. -/
def storing (types : List (OutputRoot × TypeDef)) : FileTree :=
  types.foldl (fun files (root, t) => (root.write files t).1) .empty

/-- The tree with the type in the file at a path, whatever name the path is for. -/
def storingAt (files : FileTree) (path : Path) (t : TypeDef) : FileTree :=
  match t.toBytes with
  | .ok content => (files.replace path content).1
  | .error _ => files

end Mixins.OutputRoot
