import Mixins.Proofs.Merge.FailedTarget
import Mixins.Proofs.Merge.Prepared
import Mixins.Proofs.OutputRoot.Ahead
import Mixins.Proofs.Run.Steps

/-!
# The target phase only gains

The targets are merged one after the other over one pool. Several of them may share a file, a target
may be a mixin of a later one, and a target that fails leaves the pool changed but not its file. As
the output root is the first module, the pool is ahead of it all the while, so no write takes
anything back.

* `mergeMixins_ahead` — the work on one target.
* `mergeTargets_ahead` — the work on all of them.
* `mergeTargets_gains` — what a type file declares at some time, it declares from then on.
-/

namespace Mixins

open Layout (IsPlain IsTypeFile)

variable {root : OutputRoot} {files : FileTree} {pool : Pool} {r : Location}
  {sources : List Module.Source}

/-- Whether every type file of one tree is still a type file of the other, at most extended. -/
def FileTree.Gains (files files' : FileTree) : Prop :=
  ∀ l t, IsTypeFile l → files.typeAt? l = some t → ∃ t', files'.typeAt? l = some t' ∧ t.Extends t'

theorem FileTree.Gains.refl (files : FileTree) : files.Gains files :=
  fun _ t _ ht => ⟨t, ht, .refl t⟩

theorem FileTree.Gains.trans {files' files'' : FileTree} (h : files.Gains files')
    (h' : files'.Gains files'') : files.Gains files'' := by
  intro l t hl ht
  obtain ⟨t', ht', hext⟩ := h l t hl ht
  obtain ⟨t'', ht'', hext'⟩ := h' l t' hl ht'
  exact ⟨t'', ht'', hext.trans hext'⟩

/-- **The work on one target** leaves the pool ahead of the files, whether it fails or not, and the
type files only gain by it. -/
theorem Merge.mergeMixins_ahead (h : OutputFirst files root r pool.sources)
    (hahead : pool.Ahead files r) {target : String} (htarget : IsPlain target)
    (interfaceName : String) (mixins : List String) :
    let done := mergeMixins interfaceName root target mixins pool files
    OutputFirst done.2.2 root r done.2.1.sources ∧ done.2.1.Ahead done.2.2 r ∧
      files.Gains done.2.2 := by
  rw [mergeMixins_eq]
  have hextends := prepare_extends files interfaceName target mixins pool
  have hagree := prepare_agree files interfaceName target mixins pool
  cases hprepare : prepare files interfaceName target mixins pool with
  | mk report rest =>
    obtain ⟨pool', toWrite⟩ := rest
    rw [hprepare] at hextends hagree
    have hfirst : OutputFirst files root r pool'.sources := hagree.sources ▸ h
    have hahead' := hahead.extended h hextends
    cases toWrite with
    | none => exact ⟨hfirst, hahead', .refl files⟩
    | some x =>
      obtain ⟨hresident, -⟩ := prepare_toWrite hprepare
      have hname := hahead'.named target x htarget hresident
      have hx : IsPlain x.name := hname ▸ Layout.isPlain_outermost.2 htarget
      rw [← Name.outermost_outermost, ← hname] at hresident
      dsimp only [OutputRoot.writeAny]
      exact ⟨hfirst.write hx, hahead'.write hfirst hx hresident,
        fun l t hl ht => hahead'.typeAt?_write hfirst hx hresident hl ht⟩

namespace Run

variable (settings : Settings)

/-- **The work on all targets**, one after the other. -/
theorem mergeTargets_ahead (h : OutputFirst files root r pool.sources)
    (hahead : pool.Ahead files r) {mapping : Mapping}
    (hplain : ∀ call ∈ mapping, IsPlain call.1) :
    let done := mergeTargets settings root mapping pool files
    OutputFirst done.2.2 root r done.2.1.sources ∧ done.2.1.Ahead done.2.2 r ∧
      files.Gains done.2.2 := by
  induction mapping generalizing pool files with
  | nil => exact ⟨h, hahead, .refl files⟩
  | cons call rest ih =>
    obtain ⟨target, mixins⟩ := call
    obtain ⟨htarget, hrest⟩ := List.forall_mem_cons.1 hplain
    obtain ⟨hfirst, hahead', hgains⟩ :=
      Merge.mergeMixins_ahead h hahead htarget settings.stringTypes mixins
    obtain ⟨hfirst', hahead'', hgains'⟩ := ih hfirst hahead' hrest
    rw [mergeTargets_cons]
    exact ⟨hfirst', hahead'', hgains.trans hgains'⟩

/-- Further targets are merged from where the others have left off. -/
theorem mergeTargets_append (before later : Mapping) (pool : Pool) (files : FileTree) :
    (mergeTargets settings root (before ++ later) pool files).2 =
      let done := mergeTargets settings root before pool files
      (mergeTargets settings root later done.2.1 done.2.2).2 := by
  induction before generalizing pool files with
  | nil => rfl
  | cons call before ih =>
    obtain ⟨target, mixins⟩ := call
    rw [List.cons_append, mergeTargets_cons, mergeTargets_cons]
    exact ih _ _

/-- **What a type file declares** before some of the calls, it declares after them, unchanged and in
the same place, however many calls there were before on the same pool and whichever of them fail. -/
theorem mergeTargets_gains (h : OutputFirst files root r sources) {before later : Mapping}
    (hplain : ∀ call ∈ before ++ later, IsPlain call.1) {l : Location} (hl : IsTypeFile l)
    {t : TypeDef}
    (ht : (mergeTargets settings root before (.ofSources sources) files).2.2.typeAt? l =
      some t) :
    ∃ t', (mergeTargets settings root (before ++ later) (.ofSources sources) files).2.2.typeAt?
        l = some t' ∧ t.Extends t' ∧
      ∀ path x, t.descendant? path = some x → ∃ x', t'.descendant? path = some x' ∧
        x.methods <+: x'.methods ∧ x.fields <+: x'.fields ∧
        x.constructors <+: x'.constructors := by
  obtain ⟨hbefore, hlater⟩ := List.forall_mem_append.1 hplain
  obtain ⟨hfirst, hahead, -⟩ :=
    mergeTargets_ahead settings h (Pool.ahead_ofSources files r sources) hbefore
  obtain ⟨-, -, hgains⟩ := mergeTargets_ahead settings hfirst hahead hlater
  rw [mergeTargets_append]
  obtain ⟨t', ht', hext⟩ := hgains l t hl ht
  refine ⟨t', ht', hext, fun path x hx => ?_⟩
  obtain ⟨x', hx', hpart⟩ := hext.descendant? hx
  have hdeclaration := hpart.declaration
  exact ⟨x', hx', hdeclaration.methods, hdeclaration.fields, hdeclaration.constructors⟩

/-- A class `u.M` that lends a method, and the empty classes `u.T` and `u.U`. -/
def threeTypes : FileTree :=
  OutputRoot.storing
    ([Merge.lender, .bare "u.T" .classType, .bare "u.U" .classType].map (⟨⟨"out"⟩⟩, ·))

/-- A call by which `u.T` gains a method. -/
def firstCall : Mapping :=
  [("u.T", ["u.M"])]

/-- A call that fails, and one whose mixin is the target of the first call. -/
def furtherCalls : Mapping :=
  [("u.T", ["u.Missing"]), ("u.U", ["u.T"])]

/-- The reports, the pool and the files after some calls over a new pool. -/
def afterCalls (calls : Mapping) : List TargetReport × Pool × FileTree :=
  mergeTargets .default ⟨⟨"out"⟩⟩ calls (.ofSources [.directory ⟨"out"⟩]) threeTypes

/-- The target `u.T` gains a method. Then it fails, and then it is itself a mixin; the method stays
in its file. -/
theorem mergeTargets_gains_failing :
    (afterCalls (firstCall ++ furtherCalls)).1.map (·.error.isSome) = [false, true, false] ∧
      ∃ t, (afterCalls firstCall).2.2.typeAt? ["out", "u", "T.ctype"] = some t ∧
        t.hasMethod "lent" = true ∧
        ∃ t', (afterCalls (firstCall ++ furtherCalls)).2.2.typeAt? ["out", "u", "T.ctype"] =
            some t' ∧ t.Extends t' := by
  have hroot : FileTree.Onward .empty ⟨"out"⟩ [] ["out"] :=
    ⟨⟨[], by decide, rfl⟩, rfl, by unfold FileTree.Ordinary; decide⟩
  have hfirst : OutputFirst threeTypes ⟨⟨"out"⟩⟩ ["out"] [.directory ⟨"out"⟩] :=
    .storing hroot (by decide)
  have hplain : ∀ call ∈ firstCall ++ furtherCalls, IsPlain call.1 := by decide
  have hfile : IsTypeFile ["out", "u", "T.ctype"] := ⟨["out", "u"], ['T'], by decide⟩
  have hbefore : (afterCalls firstCall).2.2.typeAt? ["out", "u", "T.ctype"] =
      some { TypeDef.bare "u.T" .classType with methods := Merge.lender.methods } := by
    decide +kernel
  have hreports : (afterCalls (firstCall ++ furtherCalls)).1.map (·.error.isSome) =
      [false, true, false] := by
    decide +kernel
  unfold afterCalls at hbefore hreports ⊢
  obtain ⟨t', ht', hext, -⟩ := mergeTargets_gains .default hfirst hplain hfile hbefore
  exact ⟨hreports, _, hbefore, by decide, t', ht', hext⟩

end Run

end Mixins
