import Mixins.Proofs.Merge.Accounting
import Mixins.Proofs.Merge.OwnFile

/-!
# The report and the file

The digests in a report are of the target alone, which may lie deep in the outermost type that is
written. What the file says of the target is what the report says: the digest after the work, and if
nothing was added, the digest before it.

* `mergeAll_current?` — merging mixins extends the target by as much as is counted as added.
* `mergeMixins_describes` — the report describes the file that it names.
-/

namespace Mixins.Merge

variable {files files' : FileTree} {interfaceName target : String} {mixins : List String}
  {pool pool' reached : Pool} {report : TargetReport} {root : OutputRoot} {path : Path}

/-- **All mixins merged.** The target is still found under its name, extended by as much as was
counted as added meanwhile. -/
theorem mergeAll_current? {outcome outcome' : Outcome} {t : TypeDef}
    (ht : pool.current? target = some t)
    (h : mergeAll files interfaceName target mixins pool outcome = (.ok (), reached, outcome')) :
    ∃ t', reached.current? target = some t' ∧ t.Extends t' ∧
      outcome'.added + t.size = outcome.added + t'.size := by
  induction mixins generalizing pool outcome t with
  | nil =>
    obtain ⟨-, hrest⟩ := Prod.mk.inj h
    obtain ⟨rfl, rfl⟩ := Prod.mk.inj hrest
    exact ⟨t, ht, .refl t, rfl⟩
  | cons mixinName mixins ih =>
    obtain ⟨pool₁, hagree, ⟨cause, hstop⟩ | ⟨mixin, t₁, ht₁, hnext⟩⟩ :=
      mergeAll_cons (loads_agree files [target, mixinName]) List.mem_cons_self
        (List.mem_cons_of_mem _ List.mem_cons_self) interfaceName pool outcome
    · rw [hstop] at h
      cases h
    · -- the loads have not changed the target
      obtain rfl : t₁ = t := (hagree fun _ => True).current?_eq trivial ht₁ ht
      have hchanges := merge_changes interfaceName mixin ⟨t₁, outcome⟩
      have hext := hchanges.extends
      have hsize := hchanges.size
      rw [hnext] at h
      obtain ⟨t', ht', hext', hsize'⟩ := ih (Pool.current?_put ht₁ hext.name) h
      refine ⟨t', ht', hext.trans hext', ?_⟩
      simp only [TypeDef.mergeMixin] at hsize'
      dsimp only at hsize
      omega

/-- **The report describes the file** that it names. The file holds the outermost type around the
target; the target is found in it under its name, and its digest is the one after the work. If
nothing was added, this is also the digest before it. -/
theorem mergeMixins_describes
    (h : mergeMixins interfaceName root target mixins pool files = (report, pool', files'))
    (hwritten : report.written = some path) :
    ∃ content whole t digest, files'.read path = .ok content ∧
      (∀ context, TypeDef.ofBytes content context = .ok whole) ∧
      whole.descendant? (Name.chain target) = some t ∧ t.digest = .ok digest ∧
      report.digestAfter = some digest ∧
      (report.outcome.added = 0 → report.digestBefore = some digest) := by
  obtain ⟨prepared, whole, hprepare, hwrite, rfl⟩ := mergeMixins_wrote h hwritten
  obtain ⟨before, after, pool₀, reached, outcome, hbefore, hall, hafter, hwhole, rfl⟩ :=
    prepare_eq_some hprepare
  obtain ⟨t₀, ht₀, hdigest₀⟩ := current?_of_poolDigest hbefore
  obtain ⟨t, ht, hext, hsize⟩ := mergeAll_current? ht₀ hall
  obtain ⟨t', ht', hdigest⟩ := current?_of_poolDigest hafter
  have hagree := Pool.load_agree files (fun _ => True) reached target
  rw [← poolDigest_snd, hafter] at hagree
  obtain rfl : t' = t := hagree.current?_eq trivial ht' ht
  have hpart : whole.descendant? (Name.chain target) = some t' := by
    rwa [Pool.current?, hwhole, Option.bind_some] at ht'
  obtain ⟨houtermost, hpath, hread, -⟩ := OutputRoot.write_eq_ok hwrite
  have hback := hread whole.name (Name.isOutermost_iff.1 houtermost)
  obtain ⟨content, hcontent, hof⟩ := OutputRoot.read_eq_ok_iff.1 hback
  refine ⟨content, whole, t', after, hpath ▸ hcontent, TypeDef.ofBytes_congr hof, hpart, hdigest,
    rfl, fun hadded => ?_⟩
  dsimp only at hadded
  have hsame : t' = t₀ := hext.eq_of_size_le (by simp only [Outcome.zero] at hsize; omega)
  rw [hsame, hdigest₀] at hdigest
  exact congrArg some (Except.ok.inj hdigest)

/-- A class `u.T$In` in the file of `u.T`, and the class `u.M`, which lends a method. -/
def nestedTarget : FileTree :=
  OutputRoot.storing [
    (⟨⟨"out"⟩⟩, { TypeDef.bare "u.T" .classType with nested := [.bare "u.T$In" .classType] }),
    (⟨⟨"out"⟩⟩, lender)]

/-- The work on the nested class. -/
def nestedWork : TargetReport × Pool × FileTree :=
  mergeMixins "StringTypes" ⟨⟨"out"⟩⟩ "u.T$In" ["u.M"] (.ofSources [.directory ⟨"out"⟩])
    nestedTarget

/-- The nested class has gained the method, and the file of `u.T` has it so. -/
theorem mergeMixins_describes_nested :
    nestedWork.1.outcome.added = 1 ∧ nestedWork.1.written = some ⟨"out/u/T.ctype"⟩ ∧
      ∃ content whole t digest, nestedWork.2.2.read ⟨"out/u/T.ctype"⟩ = .ok content ∧
        TypeDef.ofBytes content "u/T.ctype" = .ok whole ∧ whole.descendant? ["In"] = some t ∧
        t.digest = .ok digest ∧ nestedWork.1.digestAfter = some digest := by
  have hreport : nestedWork.1.outcome.added = 1 ∧
      nestedWork.1.written = some ⟨"out/u/T.ctype"⟩ := by
    decide +kernel
  rcases hdone : nestedWork with ⟨report, pool', files'⟩
  rw [hdone] at hreport
  obtain ⟨content, whole, t, digest, hread, hof, hpart, hdigest, hafter, -⟩ :=
    mergeMixins_describes hdone hreport.2
  have hchain : Name.chain "u.T$In" = ["In"] := by decide
  rw [hchain] at hpart
  exact ⟨hreport.1, hreport.2, content, whole, t, digest, hread, hof _, hpart, hdigest, hafter⟩

end Mixins.Merge
