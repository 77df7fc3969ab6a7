import Mixins.Module
import Mixins.Merge
import Mixins.OutputRoot
import Mixins.Report

/-!
# Variants of a type

Every module may have a part of one and the same type: its variant. The variants are united into one
type. The outermost type around the first variant survives, the other variants are merged into its
variant, and it is written to the output root. With fewer than two variants there is nothing to do.
-/

namespace Mixins

/-- A module's part of a type, as the outermost type around it. -/
structure Variant where
  label : String
  outer : TypeDef
  deriving DecidableEq, Inhabited

namespace Variant

/-- The variants up to the first module that cannot be read, and that module's failure. -/
def collect (files : FileTree) (name : String) :
    Classpath → List Variant × Option Failure × Classpath
  | [] => ([], none, [])
  | m :: rest =>
    match m.loadOutermost? files name with
    | (.error cause, m) => ([], some cause, m :: rest)
    | (.ok found, m) =>
      let (others, cause, rest) := collect files name rest
      match found with
      | none => (others, cause, m :: rest)
      | some outer =>
        if (outer.descendant? (Name.chain name)).isSome then
          (⟨m.label, outer⟩ :: others, cause, m :: rest)
        else (others, cause, m :: rest)

/-- Merges the type at the end of the chain of each variant into `target`. -/
def mergeAll (interfaceName : String) (chain : List String) (target : TypeDef)
    (variants : List Variant) : Merge.Progress :=
  (variants.filterMap fun v => v.outer.descendant? chain).foldl
    (fun p mixin => p.target.mergeMixin interfaceName mixin p.outcome) ⟨target, .zero⟩

/-- The outermost type around the united type, and what was counted. -/
def unite? (interfaceName : String) (chain : List String) (first : Variant)
    (others : List Variant) : Option (TypeDef × Outcome) := do
  let p := mergeAll interfaceName chain (← first.outer.descendant? chain) others
  return (← first.outer.modifyDescendant? (fun _ => p.target) chain, p.outcome)

/-- The report after a failure. -/
def failed (report : UnionReport) (cause : Failure) : UnionReport :=
  { report with error := some cause.message }

/-- Unites the type of the given name and writes the file that holds it. -/
def writeUnion (interfaceName : String) (root : OutputRoot) (name : String) (classpath : Classpath)
    (files : FileTree) : UnionReport × Classpath × FileTree :=
  let (variants, cause, classpath) := collect files name classpath
  let report : UnionReport := ⟨name, variants.map (·.label), .zero, none, none⟩
  match cause, variants with
  | some cause, _ => (failed report cause, classpath, files)
  | none, first :: second :: others =>
    match unite? interfaceName (Name.chain name) first (second :: others) with
    | none => (failed report (.notFound name), classpath, files)
    | some (t, outcome) =>
      let report := { report with outcome }
      match root.write files t with
      | (files, .error cause) => (failed report cause, classpath, files)
      | (files, .ok path) => ({ report with written := some path }, classpath, files)
  | none, _ => (report, classpath, files)

end Variant

end Mixins
