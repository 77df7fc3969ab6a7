import Mixins.Proofs.Merge.Target

/-!
# The work on a target before the writing

All that the work on a target does to its pool comes before the writing, and the writing is one
replacement of a file. So the work is a preparation, which only reads files, and then at most one
write.

* `prepare` — the preparation: the report so far, the pool, and the type to be written.
* `mergeMixins_eq` — the work is the preparation and the write.
* `prepare_carries` — what loads and puts carry along, the preparation does.
* `prepare_eq_some` — what has happened if there is something to be written.
* `prepare_toWrite` — what is to be written is the target's outermost type, at most extended.
* `mergeMixins_wrote` — a file that is reported as written.
-/

namespace Mixins

/-- The files when the type has been written, if there is one to be written. -/
def OutputRoot.writeAny (root : OutputRoot) (files : FileTree) : Option TypeDef → FileTree
  | none => files
  | some t => (root.write files t).1

namespace Merge

open Pool (Agree)

variable {files : FileTree} {interfaceName target : String} {mixins : List String}
  {pool pool' : Pool} {report : TargetReport} {root : OutputRoot} {t : TypeDef}

/-- The work on a target up to the writing: the report so far, the pool, and the type to be written,
if it comes to that. -/
def prepare (files : FileTree) (interfaceName target : String) (mixins : List String)
    (pool : Pool) : TargetReport × Pool × Option TypeDef :=
  let report : TargetReport := ⟨target, mixins, .zero, none, none, none, none⟩
  match poolDigest files pool target with
  | (.error cause, pool) => (failed report cause, pool, none)
  | (.ok digest, pool) =>
    let (merged, pool, outcome) := mergeAll files interfaceName target mixins pool .zero
    let report := { report with digestBefore := some digest, outcome }
    match merged with
    | .error cause => (failed report cause, pool, none)
    | .ok () =>
      match poolDigest files pool target with
      | (.error cause, pool) => (failed report cause, pool, none)
      | (.ok digest, pool) =>
        ({ report with digestAfter := some digest }, pool,
          pool.residentType? (Name.outermost target))

/-- The report when the write is done. -/
def finish (report : TargetReport) : Except Failure Path → TargetReport
  | .error cause => failed report cause
  | .ok path => { report with written := some path }

/-- The report when the type has been written, if there is one to be written. -/
def conclude (root : OutputRoot) (files : FileTree) (report : TargetReport) :
    Option TypeDef → TargetReport
  | none => report
  | some t => finish report (root.write files t).2

theorem poolDigest_snd (files : FileTree) (pool : Pool) (name : String) :
    (poolDigest files pool name).2 = (pool.load files name).2 := rfl

theorem poolDigest_fst (files : FileTree) (pool : Pool) (name : String) :
    (poolDigest files pool name).1 = (pool.load files name).1.bind TypeDef.digest := rfl

/-- A type with a digest lies in a resident type. -/
theorem current?_of_poolDigest {digest : String}
    (h : poolDigest files pool target = (.ok digest, pool')) :
    ∃ t, pool'.current? target = some t ∧ t.digest = .ok digest := by
  have hfst := poolDigest_fst files pool target
  have hsnd := poolDigest_snd files pool target
  rw [h] at hfst hsnd
  cases hload : pool.load files target with
  | mk found reached =>
    rw [hload] at hfst hsnd
    cases found with
    | error cause => cases hfst
    | ok t =>
      obtain rfl : pool' = reached := hsnd
      exact ⟨t, Pool.load_eq_ok hload, hfst.symm⟩

theorem writeBack_of_resident (h : pool.residentType? (Name.outermost target) = some t) :
    pool.writeBack files target root =
      ((root.write files t).2, pool, (root.write files t).1) := by
  have hresident : pool.withResident files target = .ok pool := by
    simp [Pool.withResident, h, pure, Except.pure]
  simp only [Pool.writeBack, hresident, h]

/-- **The work on a target** is the preparation and at most one write. -/
theorem mergeMixins_eq (interfaceName : String) (root : OutputRoot) (target : String)
    (mixins : List String) (pool : Pool) (files : FileTree) :
    mergeMixins interfaceName root target mixins pool files =
      let done := prepare files interfaceName target mixins pool
      (conclude root files done.1 done.2.2, done.2.1, root.writeAny files done.2.2) := by
  unfold mergeMixins prepare
  cases hbefore : poolDigest files pool target with
  | mk found pool₀ =>
    cases found with
    | error cause => rfl
    | ok digest =>
      dsimp only
      cases hall : mergeAll files interfaceName target mixins pool₀ .zero with
      | mk merged rest =>
        obtain ⟨reached, outcome⟩ := rest
        cases merged with
        | error cause => rfl
        | ok _ =>
          dsimp only
          cases hafter : poolDigest files reached target with
          | mk found pool₁ =>
            cases found with
            | error cause => rfl
            | ok digest' =>
              obtain ⟨_, hcurrent, -⟩ := current?_of_poolDigest hafter
              obtain ⟨t, ht, -⟩ := Option.bind_eq_some_iff.1 hcurrent
              dsimp only
              rw [writeBack_of_resident ht, ht]
              dsimp only [conclude, OutputRoot.writeAny]
              cases hwrite : root.write files t with
              | mk files₁ written => cases written <;> rfl

/-! ## What the preparation leaves of the pool -/

/-- **What loads and puts carry along**, the preparation does. -/
theorem prepare_carries {R : Pool → Pool → Prop} (h : Carries files target (target :: mixins) R)
    (interfaceName : String) (pool : Pool) :
    R pool (prepare files interfaceName target mixins pool).2.1 := by
  have hloaded := h.load target List.mem_cons_self
  unfold prepare
  cases hbefore : poolDigest files pool target with
  | mk found pool₀ =>
    obtain rfl : (pool.load files target).2 = pool₀ := congrArg Prod.snd hbefore
    cases found with
    | error cause => exact hloaded pool
    | ok digest =>
      have hmerged := h.trans _ _ _ (hloaded pool)
        (mergeAll_carries h List.mem_cons_self (List.subset_cons_self target mixins)
          interfaceName (pool.load files target).2 .zero)
      dsimp only
      cases hall : mergeAll files interfaceName target mixins (pool.load files target).2 .zero with
      | mk merged rest =>
        obtain ⟨reached, outcome⟩ := rest
        rw [hall] at hmerged
        cases merged with
        | error cause => exact hmerged
        | ok _ =>
          have hagain := h.trans _ _ _ hmerged (hloaded reached)
          dsimp only
          cases hafter : poolDigest files reached target with
          | mk found pool₁ =>
            obtain rfl : (reached.load files target).2 = pool₁ := congrArg Prod.snd hafter
            cases found with
            | error cause => exact hagain
            | ok digest' => exact hagain

/-- Outside the target's outermost type the pool answers as before. -/
theorem prepare_agree (files : FileTree) (interfaceName target : String) (mixins : List String)
    (pool : Pool) :
    Agree files (· ≠ Name.outermost target)
      (prepare files interfaceName target mixins pool).2.1 pool :=
  prepare_carries (carries_agree files target (target :: mixins)) interfaceName pool

/-- **What the pool has** afterwards is what it had before, at most extended. -/
theorem prepare_extends (files : FileTree) (interfaceName target : String) (mixins : List String)
    (pool : Pool) :
    Pool.Extends files pool (prepare files interfaceName target mixins pool).2.1 := by
  have hcarries : Carries files target (target :: mixins) (Pool.Extends files) :=
    { refl := fun p => .ofAgree fun on => .refl files on p
      trans := fun _ _ _ h h' => h.trans h'
      load := fun name _ p => .ofAgree fun on => Pool.load_agree files on p name
      put := fun _ _ _ ht hext => Pool.put_extends ht hext }
  exact prepare_carries hcarries interfaceName pool

/-- **If there is something to be written**, nothing has failed: the target has its digest, all
mixins have been merged, and it has its digest again. -/
theorem prepare_eq_some (h : prepare files interfaceName target mixins pool =
    (report, pool', some t)) :
    ∃ before after pool₀ reached outcome,
      poolDigest files pool target = (.ok before, pool₀) ∧
      mergeAll files interfaceName target mixins pool₀ .zero = (.ok (), reached, outcome) ∧
      poolDigest files reached target = (.ok after, pool') ∧
      pool'.residentType? (Name.outermost target) = some t ∧
      report = ⟨target, mixins, outcome, some before, some after, none, none⟩ := by
  unfold prepare at h
  cases hbefore : poolDigest files pool target with
  | mk found pool₀ =>
    cases found with
    | error cause => simp [hbefore] at h
    | ok before =>
      simp only [hbefore] at h
      cases hall : mergeAll files interfaceName target mixins pool₀ .zero with
      | mk merged rest =>
        obtain ⟨reached, outcome⟩ := rest
        simp only [hall] at h
        cases merged with
        | error cause => simp at h
        | ok _ =>
          dsimp only at h
          cases hafter : poolDigest files reached target with
          | mk found pool₁ =>
            simp only [hafter] at h
            cases found with
            | error cause => simp at h
            | ok after =>
              obtain ⟨rfl, rfl, ht⟩ := by simpa using h
              exact ⟨before, after, pool₀, reached, outcome, rfl, hall, hafter, ht, rfl⟩

/-- **What is to be written** is the target's outermost type as it is in the pool: the type that the
pool had there before, at most extended. -/
theorem prepare_toWrite (h : prepare files interfaceName target mixins pool =
    (report, pool', some t)) :
    pool'.residentType? (Name.outermost target) = some t ∧
      ∃ t₀, pool.type? files (Name.outermost target) = .ok (some t₀) ∧ t₀.Extends t := by
  obtain ⟨-, -, -, -, -, -, -, -, ht, -⟩ := prepare_eq_some h
  have hextends := prepare_extends files interfaceName target mixins pool
  rw [h] at hextends
  exact ⟨ht, hextends _ t (Pool.type?_of_resident ht)⟩

/-- Nothing is reported as written before the write. -/
theorem prepare_written (files : FileTree) (interfaceName target : String) (mixins : List String)
    (pool : Pool) : (prepare files interfaceName target mixins pool).1.written = none := by
  unfold prepare
  cases poolDigest files pool target with
  | mk found pool₀ =>
    cases found with
    | error cause => rfl
    | ok digest =>
      dsimp only
      cases mergeAll files interfaceName target mixins pool₀ .zero with
      | mk merged rest =>
        obtain ⟨reached, outcome⟩ := rest
        cases merged with
        | error cause => rfl
        | ok _ =>
          dsimp only
          cases poolDigest files reached target with
          | mk found pool₁ => cases found <;> rfl

/-- **If a file is reported as written**, it holds what was to be written, and the write is all that
has happened to the files. -/
theorem mergeMixins_wrote {path : Path} {files' : FileTree}
    (h : mergeMixins interfaceName root target mixins pool files = (report, pool', files'))
    (hwritten : report.written = some path) :
    ∃ prepared t, prepare files interfaceName target mixins pool = (prepared, pool', some t) ∧
      root.write files t = (files', .ok path) ∧
      report = { prepared with written := some path } := by
  rw [mergeMixins_eq] at h
  cases hprepare : prepare files interfaceName target mixins pool with
  | mk prepared rest =>
    obtain ⟨reached, toWrite⟩ := rest
    have hnothing := prepare_written files interfaceName target mixins pool
    rw [hprepare] at h hnothing
    dsimp only at h hnothing
    cases toWrite with
    | none =>
      obtain ⟨rfl, -⟩ := Prod.mk.inj h
      dsimp only [conclude] at hwritten
      rw [hnothing] at hwritten
      cases hwritten
    | some t =>
      cases hwrite : root.write files t with
      | mk after done =>
        simp only [conclude, OutputRoot.writeAny, hwrite, Prod.mk.injEq] at h
        obtain ⟨rfl, rfl, rfl⟩ := h
        cases done with
        | error cause =>
          rw [finish, failed, hnothing] at hwritten
          cases hwritten
        | ok written =>
          obtain rfl : written = path := Option.some.inj hwritten
          exact ⟨prepared, t, rfl, hwrite, rfl⟩

end Merge

end Mixins
