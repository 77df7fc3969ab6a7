import Mixins.Proofs.Merge.Target

/-!
# Targets that fail

A pool keeps every change. When the work on a target fails, the mixins that were merged before the
failure stay merged in the pool, although the target's file is not written.

* `mergeAll_error` — where a sequence of mixins fails, those before the failing one were merged.
* `mergeMixins_failed` — what a pool answers after a target has failed.
-/

namespace Mixins.Merge

open Pool (Agree)

variable {files : FileTree} {interfaceName target : String}

/-- **Where a sequence of mixins fails**, it is at one of them: those before it are merged, and what
was loaded since changes no answer. -/
theorem mergeAll_error {mixins : List String} {pool pool' : Pool} {outcome outcome' : Outcome}
    {cause : Failure} (h : mergeAll files interfaceName target mixins pool outcome =
      (.error cause, pool', outcome')) :
    ∃ k < mixins.length, ∃ reached,
      mergeAll files interfaceName target (mixins.take k) pool outcome =
        (.ok (), reached, outcome') ∧
      (mergeAll files interfaceName target (mixins.take (k + 1)) pool outcome).1 = .error cause ∧
      ∀ on, Agree files on pool' reached := by
  induction mixins generalizing pool outcome with
  | nil => simp [mergeAll] at h
  | cons mixinName mixins ih =>
    obtain ⟨pool₁, hagree, ⟨cause', hfails⟩ | ⟨mixin, t, -, hmerges⟩⟩ :=
      mergeAll_cons (loads_agree files [target, mixinName]) List.mem_cons_self
        (List.mem_cons_of_mem _ List.mem_cons_self) interfaceName pool outcome
    · rw [hfails] at h
      obtain ⟨⟨⟩, rfl, rfl⟩ := by simpa using h
      exact ⟨0, Nat.zero_lt_succ _, pool, rfl, by rw [List.take_succ_cons, hfails], hagree⟩
    · rw [hmerges] at h
      obtain ⟨k, hk, reached, hmerged, hfails, hreached⟩ := ih h
      refine ⟨k + 1, Nat.succ_lt_succ hk, reached, ?_, ?_, hreached⟩
      · rw [List.take_succ_cons, hmerges, hmerged]
      · rw [List.take_succ_cons, hmerges, hfails]

/-- **Where the work on a target stopped.** The first mixins, counted in the report, were merged
before the failure; the next one, if the work came that far, is the one that could not be. Files are
touched only if it came to writing. -/
theorem Work.stoppedAt {root : OutputRoot} {mixins : List String} {pool pool' : Pool}
    {files' : FileTree} {report : TargetReport}
    (h : Work interfaceName root target mixins pool files report pool' files')
    (herror : report.error.isSome) :
    ∃ k ≤ mixins.length, ∃ reached,
      mergeAll files interfaceName target (mixins.take k) (pool.load files target).2 .zero =
        (.ok (), reached, report.outcome) ∧
      (k < mixins.length → (report.digestBefore = none ∧ k = 0) ∨ ∃ cause,
        (mergeAll files interfaceName target (mixins.take (k + 1)) (pool.load files target).2
          .zero).1 = .error cause) ∧
      (report.digestAfter = none → files' = files) ∧ ∀ on, Agree files on pool' reached := by
  have hloaded := fun (p : Pool) on => Pool.load_agree files on p target
  cases h with
  | unread =>
    exact ⟨0, Nat.zero_le _, _, rfl, fun _ => .inl ⟨rfl, rfl⟩, fun _ => rfl, fun on =>
      .refl files on _⟩
  | stopped stop =>
    obtain ⟨k, hk, reached, hmerged, hfails, hagree⟩ := mergeAll_error stop
    exact ⟨k, Nat.le_of_lt hk, reached, hmerged, fun _ => .inr ⟨_, hfails⟩, fun _ => rfl, hagree⟩
  | @unkept _ _ _ reached all =>
    exact ⟨mixins.length, Nat.le_refl _, reached, by rw [List.take_length, all],
      fun hlt => absurd hlt (Nat.lt_irrefl _), fun _ => rfl, hloaded reached⟩
  | @unwritten _ _ _ _ reached _ _ all write =>
    have hback := fun on =>
      Pool.writeBack_agree files on (reached.load files target).2 target root
    rw [write] at hback
    exact ⟨mixins.length, Nat.le_refl _, reached, by rw [List.take_length, all],
      fun hlt => absurd hlt (Nat.lt_irrefl _), fun hnone => (nomatch hnone),
      fun on => (hback on).trans (hloaded reached on)⟩
  | written => cases herror

/-- **What a pool answers after a target has failed.** As long as the files that the pool reads stay
as they are, it answers as if only the mixins before the failure had been merged. For names outside
the target's outermost type, and for all names if no mixin was merged, that is as before. Unless it
was the writing that failed, all files do. -/
theorem mergeMixins_failed {root : OutputRoot} {mixins : List String} {pool pool' : Pool}
    {files' : FileTree} {report : TargetReport}
    (h : mergeMixins interfaceName root target mixins pool files = (report, pool', files'))
    (herror : report.error.isSome) :
    ∃ k ≤ mixins.length, ∃ reached,
      mergeAll files interfaceName target (mixins.take k) (pool.load files target).2 .zero =
        (.ok (), reached, report.outcome) ∧
      (k < mixins.length → (report.digestBefore = none ∧ k = 0) ∨ ∃ cause,
        (mergeAll files interfaceName target (mixins.take (k + 1)) (pool.load files target).2
          .zero).1 = .error cause) ∧
      (report.digestAfter = none → files' = files) ∧
      ∀ later, (∀ outer, Pool.firstType? later outer pool.sources =
          Pool.firstType? files outer pool.sources) →
        ∀ names, pool'.loadEach later names = reached.loadEach later names ∧
          ((k = 0 ∨ ∀ name ∈ names, Name.outermost name ≠ Name.outermost target) →
            pool'.loadEach later names = pool.loadEach later names) := by
  have hwork := mergeMixins_work interfaceName root target mixins pool files
  rw [h] at hwork
  obtain ⟨k, hk, reached, hmerged, hnext, hfiles, hagree⟩ := hwork.stoppedAt herror
  refine ⟨k, hk, reached, hmerged, hnext, hfiles, fun later hlater names => ?_⟩
  have houtside : Agree files (· ≠ Name.outermost target) reached pool := by
    have hall := mergeAll_agree files interfaceName target (mixins.take k)
      (pool.load files target).2 .zero
    rw [hmerged] at hall
    exact hall.trans (Pool.load_agree files _ pool target)
  have hlater' : ∀ outer, Pool.firstType? later outer pool'.sources =
      Pool.firstType? files outer pool'.sources := by
    rw [((hagree _).trans houtside).sources]
    exact hlater
  refine ⟨((hagree fun _ => True).later hlater').loadEach fun _ _ => trivial, ?_⟩
  rintro (rfl | hnames)
  · obtain ⟨rfl, -⟩ : (pool.load files target).2 = reached ∧ _ := by
      simpa [mergeAll] using hmerged
    exact (((hagree fun _ => True).trans (Pool.load_agree files _ pool target)).later
      hlater').loadEach fun _ _ => trivial
  · exact (((hagree _).trans houtside).later hlater').loadEach hnames

/-- A class `u.M` with one method. -/
def lender : TypeDef :=
  ⟨{ (TypeDef.bare "u.M" .classType).toDeclaration with
      methods := [⟨"lent", ⟨[], .void⟩, publicAccess, none, none⟩] }, []⟩

/-- A pool in which that class and an empty class `u.T` are resident. -/
def twoTypes : Pool :=
  ⟨[.directory ⟨"out"⟩], [("u.M", lender), ("u.T", .bare "u.T" .classType)]⟩

/-- The second mixin is missing, and the method of the first stays in the target. -/
theorem mergeMixins_failed_targetChanged :
    let after := mergeMixins "StringTypes" ⟨⟨"out"⟩⟩ "u.T" ["u.M", "u.Missing"] twoTypes .empty
    after.1.error.isSome ∧
      after.2.1.loadEach after.2.2 ["u.T"] ≠ twoTypes.loadEach .empty ["u.T"] := by
  refine ⟨by decide +kernel, fun hsame => ?_⟩
  have hlent := congrArg (List.map fun found => found.toOption.map (·.hasMethod "lent")) hsame
  revert hlent
  decide +kernel

/-- The second mixin is missing, and the first is as it was. -/
theorem mergeMixins_failed_mixinUnchanged :
    let after := mergeMixins "StringTypes" ⟨⟨"out"⟩⟩ "u.T" ["u.M", "u.Missing"] twoTypes .empty
    after.1.error.isSome ∧
      after.2.1.loadEach .empty ["u.M"] = twoTypes.loadEach .empty ["u.M"] := by
  intro after
  have hafter : mergeMixins "StringTypes" ⟨⟨"out"⟩⟩ "u.T" ["u.M", "u.Missing"] twoTypes .empty =
      (after.1, after.2.1, after.2.2) := rfl
  have herror : after.1.error.isSome := by decide +kernel
  obtain ⟨_, _, _, _, _, _, hlater⟩ := mergeMixins_failed hafter herror
  have houtside : ∀ name ∈ ["u.M"], Name.outermost name ≠ Name.outermost "u.T" := by decide
  exact ⟨herror, (hlater .empty (fun _ => rfl) ["u.M"]).2 (.inr houtside)⟩

end Mixins.Merge
