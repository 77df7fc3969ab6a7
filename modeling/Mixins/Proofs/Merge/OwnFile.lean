import Mixins.Proofs.Merge.FailedTarget
import Mixins.Proofs.Merge.Prepared
import Mixins.Proofs.OutputRoot

/-!
# Whose file is written

The work on a target ends with one write. The pool finds the target by the name it is asked for, but
the file is that of the name which the type itself declares, and the pool compares the two nowhere.

* `mergeMixins_writes` — the file that is written, and that no other file is.
* `mergeMixins_writes_misnamed` — a target whose type declares another name: the file of that name
  is written.
-/

namespace Mixins

open Layout (IsPlain)

variable {root : OutputRoot} {files files' : FileTree} {pool pool' : Pool}

/-- Plain names have files of their own. -/
theorem OutputRoot.pathFor_inj {name other : String} (hname : IsPlain name)
    (hother : IsPlain other) (h : root.pathFor name = root.pathFor other) :
    Name.outermost name = Name.outermost other := by
  have hway := (Layout.below_fileIn root.dir hname).way
  have hway' := (Layout.below_fileIn root.dir hother).way
  have hsame : Layout.fileIn root.dir name = Layout.fileIn root.dir other := h
  rw [hsame] at hway
  exact (Layout.namesTo_inj hname (by decide) (List.append_cancel_left (hway.symm.trans hway'))).1

namespace Merge

variable {interfaceName target : String} {mixins : List String} {report : TargetReport}
  {path : Path}

/-- If a file is reported as written, that was the write of the type which the pool had, at most
extended. -/
theorem mergeMixins_written
    (h : mergeMixins interfaceName root target mixins pool files = (report, pool', files'))
    (hwritten : report.written = some path) :
    ∃ t t', pool.type? files (Name.outermost target) = .ok (some t) ∧ t.Extends t' ∧
      root.write files t' = (files', .ok path) := by
  obtain ⟨prepared, t', hprepare, hwrite, -⟩ := mergeMixins_wrote h hwritten
  obtain ⟨-, t, htype, hext⟩ := prepare_toWrite hprepare
  exact ⟨t, t', htype, hext, hwrite⟩

/-- **Whose file is written.** The file is that of the name which the pool's type declares. That is
the target's own file if the type declares the name under which the pool has it, and for plain names
only then. No file but this one and its temporary sibling has changed. -/
theorem mergeMixins_writes
    (h : mergeMixins interfaceName root target mixins pool files = (report, pool', files'))
    (hwritten : report.written = some path) :
    ∃ t, pool.type? files (Name.outermost target) = .ok (some t) ∧ path = root.pathFor t.name ∧
      (t.name = Name.outermost target → path = root.pathFor target) ∧
      (IsPlain target → IsPlain t.name → path = root.pathFor target →
        t.name = Name.outermost target) ∧
      ∀ l content, ¬ files'.EndsAt path l → ¬ files'.EndsAt (Path.temporary path) l →
        (files'.find? l = some (.file content) ↔ files.find? l = some (.file content)) := by
  obtain ⟨t, t', htype, hext, hwrite⟩ := mergeMixins_written h hwritten
  obtain ⟨houtermost, hpath, -, hchanged⟩ := OutputRoot.write_eq_ok hwrite
  rw [hext.name, Name.isOutermost_iff] at houtermost
  rw [hext.name] at hpath
  refine ⟨t, htype, hpath, fun hname => ?_, fun htarget hplain hown => ?_,
    fun l content hl hl' => ?_⟩
  · rw [hpath, hname, OutputRoot.pathFor_outermost]
  · rw [← houtermost]
    exact OutputRoot.pathFor_inj hplain htarget (hpath.symm.trans hown)
  · exact hchanged.file_iff (not_or.2 ⟨hl', hl⟩) content

/-- A tree where the file of `u.T` declares `u.Other`. -/
def misnamed : FileTree :=
  OutputRoot.storingAt .empty ⟨"out/u/T.ctype"⟩ (.bare "u.Other" .classType)

/-- The file of `u.Other` is written, and not that of the target. -/
theorem mergeMixins_writes_misnamed :
    let done := mergeMixins "StringTypes" ⟨⟨"out"⟩⟩ "u.T" [] (.ofSources [.directory ⟨"out"⟩])
      misnamed
    done.1.written = some ⟨"out/u/Other.ctype"⟩ ∧
      OutputRoot.pathFor ⟨⟨"out"⟩⟩ "u.T" = ⟨"out/u/T.ctype"⟩ ∧
      ∃ t, Pool.type? misnamed (.ofSources [.directory ⟨"out"⟩]) "u.T" = .ok (some t) ∧
        t.name ≠ "u.T" := by
  intro done
  have hwritten : done.1.written = some ⟨"out/u/Other.ctype"⟩ := by decide +kernel
  have hpath : OutputRoot.pathFor ⟨⟨"out"⟩⟩ "u.T" = ⟨"out/u/T.ctype"⟩ := by decide +kernel
  have houter : Name.outermost "u.T" = "u.T" := by decide
  have hdone : mergeMixins "StringTypes" ⟨⟨"out"⟩⟩ "u.T" [] (.ofSources [.directory ⟨"out"⟩])
      misnamed = (done.1, done.2.1, done.2.2) := rfl
  obtain ⟨t, htype, -, hown, -⟩ := mergeMixins_writes hdone hwritten
  rw [houter] at htype hown
  refine ⟨hwritten, hpath, t, htype, fun hname => ?_⟩
  have hsame := hown hname
  rw [hpath] at hsame
  exact absurd hsame (by decide)

end Merge

end Mixins
