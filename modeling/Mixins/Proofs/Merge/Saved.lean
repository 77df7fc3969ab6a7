import Mixins.Proofs.Merge.Target
import Mixins.Proofs.OutputRoot

/-!
# The output root during the work on targets

Once a target's file is written, the pool is never behind it: what the file declares, the type in
the pool declares as well. So the file can only gain by being written again.

* `Saved` — a file that holds a type, with a pool that is not behind it.
* `Work.saved` — work on a target keeps what is saved.
* `Work.saved_written` — what is written is saved.
-/

namespace Mixins

open Layout (IsPlain)

variable {root : OutputRoot} {files files' : FileTree} {pool pool' : Pool} {name : String}
  {t : TypeDef}

/-- Whether the type's file holds an extension of `t`, and the pool an extension of that. -/
def OutputRoot.Saved (root : OutputRoot) (files : FileTree) (pool : Pool) (name : String)
    (t : TypeDef) : Prop :=
  ∃ t' r, root.read files name = .ok t' ∧ t.Extends t' ∧
    pool.residentType? (Name.outermost name) = some r ∧ t'.Extends r

theorem OutputRoot.Saved.holds (h : root.Saved files pool name t) : root.Holds files name t := by
  obtain ⟨t', -, hread, hext, -, -⟩ := h
  exact ⟨t', hread, hext⟩

namespace Merge

variable {interfaceName target : String} {mixins : List String} {report : TargetReport}

/-- **What is written is saved**, in the target's own file. -/
theorem Work.saved_written {path : Path}
    (h : Work interfaceName root target mixins pool files report pool' files')
    (hname : ∀ x, pool'.residentType? (Name.outermost target) = some x →
      x.name = Name.outermost target)
    (hwritten : report.written = some path) :
    path = root.pathFor target ∧ ∃ t, root.read files' target = .ok t ∧
      root.Saved files' pool' target t := by
  obtain ⟨-, ⟨hnothing, -⟩ | ⟨x, done, hresident, hwrite, hdone⟩⟩ := h.wrote
  · rw [hnothing] at hwritten
    cases hwritten
  · rw [hdone, toOption_eq_some] at hwritten
    subst hwritten
    have hx := hname x hresident
    obtain ⟨-, hpath, hback, -⟩ := OutputRoot.write_eq_ok hwrite
    have hread := hback target hx.symm
    refine ⟨?_, x, hread, x, x, hread, .refl x, hresident, .refl x⟩
    rw [hpath, hx, OutputRoot.pathFor_outermost]

/-- **Work on a target keeps what is saved.** -/
theorem Work.saved (h : Work interfaceName root target mixins pool files report pool' files')
    (htarget : IsPlain target)
    (hname : ∀ x, pool'.residentType? (Name.outermost target) = some x →
      x.name = Name.outermost target)
    (hplain : IsPlain name) (hsaved : root.Saved files pool name t) :
    root.Saved files' pool' name t := by
  obtain ⟨t', r, hread, hext, hresident, hbehind⟩ := hsaved
  obtain ⟨hgrows, hwrote⟩ := h.wrote
  obtain ⟨r', hresident', hgrown⟩ := hgrows _ r hresident
  -- unless the type's own file is written, it is as it was, and the pool has gained
  have hunwritten : root.read files' name = .ok t' → root.Saved files' pool' name t :=
    fun hread' => ⟨t', r', hread', hext, hresident', hbehind.trans hgrown⟩
  obtain ⟨-, rfl⟩ | ⟨x, done, hx, hwrite, -⟩ := hwrote
  · exact hunwritten hread
  · have hxname := hname x hx
    have hxplain : IsPlain x.name := hxname ▸ Layout.isPlain_outermost.2 htarget
    by_cases hsame : (∃ path, done = .ok path) ∧ Name.outermost name = x.name
    · obtain ⟨⟨path, rfl⟩, hsame⟩ := hsame
      obtain ⟨-, -, hback, -⟩ := OutputRoot.write_eq_ok hwrite
      rw [hsame, hxname, hx, Option.some.injEq] at hresident'
      subst hresident'
      have hown : pool'.residentType? (Name.outermost name) = some x := by rw [hsame, hxname, hx]
      exact ⟨x, x, hback name hsame, hext.trans (hbehind.trans hgrown), hown, .refl x⟩
    · refine hunwritten (OutputRoot.read_write hwrite hplain hxplain (fun path hpath houter => ?_)
        hread)
      rw [hxname, Name.outermost_outermost, ← hxname] at houter
      exact hsame ⟨⟨path, hpath⟩, houter⟩

end Merge

end Mixins
