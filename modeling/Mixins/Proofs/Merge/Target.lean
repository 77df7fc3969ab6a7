import Mixins.Merge.Target
import Mixins.Proofs.Pool.Answers
import Mixins.Proofs.Pool.Growth

/-!
# Working on a target

* `mergeAll_cons` — what merging one mixin into a target of the pool can do.
* `mergeAll_carries` — what loads and puts carry along, merging mixins does.
* `mergeAll_agree` — outside the target's outermost type the pool answers as before.
* `mergeAll_grows` — and what is resident has only been extended.
* `mergeMixins_work` — what the work on a target can come to.
* `Work.wrote` — what is written is the target's outermost type as it is in the pool.
-/

namespace Mixins.Merge

open Pool (Agree)

variable {files : FileTree} {interfaceName target : String}

/-! ## What loads and puts carry along -/

/-- A relation between pools that loads of the given names carry along. -/
structure Loads (files : FileTree) (names : List String) (R : Pool → Pool → Prop) : Prop where
  refl : ∀ p, R p p
  trans : ∀ p q r, R p q → R q r → R p r
  load : ∀ name ∈ names, ∀ p, R p (p.load files name).2

/-- A relation that types put in the target's place carry along too, as long as they extend it. -/
structure Carries (files : FileTree) (target : String) (names : List String)
    (R : Pool → Pool → Prop) : Prop extends Loads files names R where
  put : ∀ p t t', p.current? target = some t → t.Extends t' → R p (p.put target t')

theorem loads_agree (files : FileTree) (names : List String) :
    Loads files names fun p q => ∀ on, Agree files on q p where
  refl p on := .refl files on p
  trans _ _ _ h h' on := (h' on).trans (h on)
  load name _ p on := Pool.load_agree files on p name

theorem carries_agree (files : FileTree) (target : String) (names : List String) :
    Carries files target names fun p q => Agree files (· ≠ Name.outermost target) q p where
  refl p := .refl files _ p
  trans _ _ _ h h' := h'.trans h
  load name _ p := Pool.load_agree files _ p name
  put p _ t _ _ := Pool.put_agree files p target t

theorem carries_grows (files : FileTree) (target : String) (names : List String) :
    Carries files target names Pool.Grows where
  refl := .refl
  trans _ _ _ h h' := h.trans h'
  load name _ p := Pool.load_grows files p name
  put _ _ _ ht hext := Pool.put_grows ht hext

/-! ## Merging the mixins -/

section Carried

variable {mixinName : String} {names mixins : List String} {R : Pool → Pool → Prop}

/-- **One mixin** either cannot be merged, and then there have been loads only, or it is merged into
the target's type in the pool. -/
theorem mergeAll_cons (h : Loads files names R) (htarget : target ∈ names)
    (hmixin : mixinName ∈ names) (interfaceName : String) (pool : Pool) (outcome : Outcome) :
    ∃ pool₁, R pool pool₁ ∧
    ((∃ cause, ∀ mixins,
        mergeAll files interfaceName target (mixinName :: mixins) pool outcome =
          (.error cause, pool₁, outcome)) ∨
      ∃ mixin t, pool₁.current? target = some t ∧
        ∀ mixins, mergeAll files interfaceName target (mixinName :: mixins) pool outcome =
          mergeAll files interfaceName target mixins
            (pool₁.put target (t.mergeMixin interfaceName mixin outcome).target)
            (t.mergeMixin interfaceName mixin outcome).outcome) := by
  have hloaded := h.load mixinName hmixin pool
  cases hload : pool.load files mixinName with
  | mk found pool₁ =>
    rw [hload] at hloaded
    cases found with
    | error cause => exact ⟨pool₁, hloaded, .inl ⟨cause, fun mixins => by rw [mergeAll, hload]⟩⟩
    | ok mixin =>
      have hagain := h.load target htarget pool₁
      cases hload' : pool₁.load files target with
      | mk found pool₂ =>
        rw [hload'] at hagain
        refine ⟨pool₂, h.trans _ _ _ hloaded hagain, ?_⟩
        cases found with
        | error cause => exact .inl ⟨cause, fun mixins => by simp [mergeAll, hload, hload']⟩
        | ok t =>
          exact .inr ⟨mixin, t, Pool.load_eq_ok hload', fun mixins => by
            simp [mergeAll, hload, hload']⟩

/-- **What loads and puts carry along**, merging mixins into a target does. -/
theorem mergeAll_carries (h : Carries files target names R) (htarget : target ∈ names)
    (hmixins : mixins ⊆ names) (interfaceName : String) (pool : Pool) (outcome : Outcome) :
    R pool (mergeAll files interfaceName target mixins pool outcome).2.1 := by
  induction mixins generalizing pool outcome with
  | nil => exact h.refl pool
  | cons mixinName mixins ih =>
    obtain ⟨hmixin, hrest⟩ := List.cons_subset.1 hmixins
    obtain ⟨pool₁, hloaded, ⟨cause, hstop⟩ | ⟨mixin, t, ht, hnext⟩⟩ :=
      mergeAll_cons h.toLoads htarget hmixin interfaceName pool outcome
    · rw [hstop]
      exact hloaded
    · have hput := h.put pool₁ t _ ht (merge_extends interfaceName mixin ⟨t, outcome⟩)
      rw [hnext]
      exact h.trans _ _ _ (h.trans _ _ _ hloaded hput) (ih hrest _ _)

end Carried

/-- Merging mixins into a target changes what the pool has under the target's outermost name only.
-/
theorem mergeAll_agree (files : FileTree) (interfaceName target : String) (mixins : List String)
    (pool : Pool) (outcome : Outcome) :
    Agree files (· ≠ Name.outermost target)
      (mergeAll files interfaceName target mixins pool outcome).2.1 pool :=
  mergeAll_carries (carries_agree files target (target :: mixins)) List.mem_cons_self
    (List.subset_cons_self target mixins) interfaceName pool outcome

/-- Merging mixins into a target only extends what is resident. -/
theorem mergeAll_grows (files : FileTree) (interfaceName target : String) (mixins : List String)
    (pool : Pool) (outcome : Outcome) :
    pool.Grows (mergeAll files interfaceName target mixins pool outcome).2.1 :=
  mergeAll_carries (carries_grows files target (target :: mixins)) List.mem_cons_self
    (List.subset_cons_self target mixins) interfaceName pool outcome

/-! ## The work -/

/-- What the work on a target can come to: the report, the pool and the files in the end. -/
inductive Work (interfaceName : String) (root : OutputRoot) (target : String)
    (mixins : List String) (pool : Pool) (files : FileTree) : TargetReport → Pool → FileTree → Prop
  /-- There is no target to begin with. -/
  | unread {cause : Failure} :
      Work interfaceName root target mixins pool files
        ⟨target, mixins, .zero, none, none, none, some cause.message⟩
        (pool.load files target).2 files
  /-- Some mixin cannot be merged. -/
  | stopped {digest : String} {cause : Failure} {outcome : Outcome} {pool' : Pool}
      (stop : mergeAll files interfaceName target mixins (pool.load files target).2 .zero =
        (.error cause, pool', outcome)) :
      Work interfaceName root target mixins pool files
        ⟨target, mixins, outcome, some digest, none, none, some cause.message⟩ pool' files
  /-- The merged target is no longer a type that can be kept in a file. -/
  | unkept {digest : String} {cause : Failure} {outcome : Outcome} {reached : Pool}
      (all : mergeAll files interfaceName target mixins (pool.load files target).2 .zero =
        (.ok (), reached, outcome)) :
      Work interfaceName root target mixins pool files
        ⟨target, mixins, outcome, some digest, none, none, some cause.message⟩
        (reached.load files target).2 files
  /-- The file cannot be written. -/
  | unwritten {digest digest' : String} {cause : Failure} {outcome : Outcome}
      {reached pool' : Pool} {files' : FileTree}
      (all : mergeAll files interfaceName target mixins (pool.load files target).2 .zero =
        (.ok (), reached, outcome))
      (write : (reached.load files target).2.writeBack files target root =
        (.error cause, pool', files')) :
      Work interfaceName root target mixins pool files
        ⟨target, mixins, outcome, some digest, some digest', none, some cause.message⟩ pool' files'
  | written {digest digest' : String} {outcome : Outcome} {reached pool' : Pool}
      {files' : FileTree} {path : Path}
      (all : mergeAll files interfaceName target mixins (pool.load files target).2 .zero =
        (.ok (), reached, outcome))
      (write : (reached.load files target).2.writeBack files target root =
        (.ok path, pool', files')) :
      Work interfaceName root target mixins pool files
        ⟨target, mixins, outcome, some digest, some digest', some path, none⟩ pool' files'

/-- **What the work on a target can come to.** -/
theorem mergeMixins_work (interfaceName : String) (root : OutputRoot) (target : String)
    (mixins : List String) (pool : Pool) (files : FileTree) :
    Work interfaceName root target mixins pool files
      (mergeMixins interfaceName root target mixins pool files).1
      (mergeMixins interfaceName root target mixins pool files).2.1
      (mergeMixins interfaceName root target mixins pool files).2.2 := by
  unfold mergeMixins
  cases hbefore : poolDigest files pool target with
  | mk found pool₀ =>
    obtain rfl : (pool.load files target).2 = pool₀ := congrArg Prod.snd hbefore
    cases found with
    | error cause => exact .unread
    | ok digest =>
      dsimp only
      cases hall : mergeAll files interfaceName target mixins (pool.load files target).2 .zero with
      | mk merged rest =>
        obtain ⟨reached, outcome⟩ := rest
        cases merged with
        | error cause => exact .stopped hall
        | ok _ =>
          dsimp only
          cases hafter : poolDigest files reached target with
          | mk found pool₁ =>
            obtain rfl : (reached.load files target).2 = pool₁ := congrArg Prod.snd hafter
            cases found with
            | error cause => exact .unkept hall
            | ok digest' =>
              dsimp only
              cases hwrite : (reached.load files target).2.writeBack files target root with
              | mk written rest =>
                obtain ⟨pool', files'⟩ := rest
                cases written with
                | error cause => exact .unwritten hall hwrite
                | ok path => exact .written hall hwrite

/-- **What is written** is the target's outermost type as it is in the pool, and there it has only
been extended. -/
theorem Work.wrote {root : OutputRoot} {mixins : List String} {pool pool' : Pool}
    {files' : FileTree} {report : TargetReport}
    (h : Work interfaceName root target mixins pool files report pool' files') :
    pool.Grows pool' ∧ ((report.written = none ∧ files' = files) ∨
      ∃ t done, pool'.residentType? (Name.outermost target) = some t ∧
        root.write files t = (files', done) ∧ report.written = done.toOption) := by
  have hloaded := Pool.load_grows files pool target
  have hmerged := mergeAll_grows files interfaceName target mixins (pool.load files target).2 .zero
  cases h with
  | unread => exact ⟨hloaded, .inl ⟨rfl, rfl⟩⟩
  | stopped stop =>
    rw [stop] at hmerged
    exact ⟨hloaded.trans hmerged, .inl ⟨rfl, rfl⟩⟩
  | @unkept _ _ _ reached all =>
    rw [all] at hmerged
    exact ⟨(hloaded.trans hmerged).trans (Pool.load_grows files reached target), .inl ⟨rfl, rfl⟩⟩
  | @unwritten _ _ _ _ reached _ _ all write =>
    rw [all] at hmerged
    obtain ⟨hback, hwrote⟩ := Pool.writeBack_grows write
    refine ⟨((hloaded.trans hmerged).trans (Pool.load_grows files reached target)).trans hback, ?_⟩
    exact hwrote.imp (fun h => ⟨rfl, h.2⟩) fun ⟨t, ht, hfile⟩ => ⟨t, _, ht, hfile, rfl⟩
  | @written _ _ _ reached _ _ _ all write =>
    rw [all] at hmerged
    obtain ⟨hback, hwrote⟩ := Pool.writeBack_grows write
    refine ⟨((hloaded.trans hmerged).trans (Pool.load_grows files reached target)).trans hback, ?_⟩
    obtain ⟨hnone, -⟩ | ⟨t, ht, hfile⟩ := hwrote
    · cases hnone
    · exact .inr ⟨t, _, ht, hfile, rfl⟩

end Mixins.Merge
