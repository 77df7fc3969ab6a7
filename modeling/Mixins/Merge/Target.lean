import Mixins.Merge
import Mixins.Pool
import Mixins.Report

/-!
# Merging mixins into a target of the pool

The mixins of a target are merged one after the other, then the target's file is written. The first
failure ends the work on the target; it is reported, together with what was counted before it.
-/

namespace Mixins.Merge

/-- Merges mixins into a target of the pool, as far as all of them can be loaded. -/
def mergeAll (files : FileTree) (interfaceName target : String) :
    List String → Pool → Outcome → Except Failure Unit × Pool × Outcome
  | [], pool, outcome => (.ok (), pool, outcome)
  | mixinName :: rest, pool, outcome =>
    match pool.load files mixinName with
    | (.error cause, pool) => (.error cause, pool, outcome)
    | (.ok mixin, pool) =>
      match pool.load files target with
      | (.error cause, pool) => (.error cause, pool, outcome)
      | (.ok t, pool) =>
        let merged := t.mergeMixin interfaceName mixin outcome
        mergeAll files interfaceName target rest (pool.put target merged.target) merged.outcome

/-- The digest of a type of the pool. -/
def poolDigest (files : FileTree) (pool : Pool) (name : String) : Except Failure String × Pool :=
  let (found, pool) := pool.load files name
  (found.bind TypeDef.digest, pool)

/-- The report after a failure. -/
def failed (report : TargetReport) (cause : Failure) : TargetReport :=
  { report with error := some cause.message }

/-- Merges mixins into a target and writes the target's file. -/
def mergeMixins (interfaceName : String) (root : OutputRoot) (target : String)
    (mixins : List String) (pool : Pool) (files : FileTree) : TargetReport × Pool × FileTree :=
  let report : TargetReport := ⟨target, mixins, .zero, none, none, none, none⟩
  match poolDigest files pool target with
  | (.error cause, pool) => (failed report cause, pool, files)
  | (.ok digest, pool) =>
    let report := { report with digestBefore := some digest }
    let (merged, pool, outcome) := mergeAll files interfaceName target mixins pool .zero
    let report := { report with outcome }
    match merged with
    | .error cause => (failed report cause, pool, files)
    | .ok () =>
      match poolDigest files pool target with
      | (.error cause, pool) => (failed report cause, pool, files)
      | (.ok digest, pool) =>
        let report := { report with digestAfter := some digest }
        match pool.writeBack files target root with
        | (.error cause, pool, files) => (failed report cause, pool, files)
        | (.ok path, pool, files) => ({ report with written := some path }, pool, files)

end Mixins.Merge
