import Mixins.Json.Printer
import Mixins.Mapping
import Mixins.Merge
import Mixins.Path

/-!
# Reports

What a run did to each target and to each united type.
-/

namespace Mixins

structure TargetReport where
  target : String
  mixins : List String
  outcome : Outcome
  digestBefore : Option String
  digestAfter : Option String
  written : Option Path
  error : Option String
  deriving DecidableEq, Repr, Inhabited

structure UnionReport where
  typeName : String
  /-- The modules that have a part of the type. -/
  variants : List String
  outcome : Outcome
  written : Option Path
  error : Option String
  deriving DecidableEq, Repr, Inhabited

structure Report where
  mapping : Mapping
  targets : List TargetReport
  unions : List UnionReport
  deriving DecidableEq, Repr, Inhabited

/-- Whether the target is known to be as it was. -/
def TargetReport.unchanged (r : TargetReport) : Bool :=
  r.digestBefore.isSome && r.digestBefore == r.digestAfter

namespace Report

def totals (r : Report) : Counters :=
  Counters.sum (r.targets.map (·.outcome.counters) ++ r.unions.map (·.outcome.counters))

/-- How many targets and unions failed. -/
def errorCount (r : Report) : Nat :=
  r.targets.countP (·.error.isSome) + r.unions.countP (·.error.isSome)

end Report

/-! ## As JSON -/

open Json

def Counters.toJson (c : Counters) : Json :=
  ofMembers
    [("added", .int c.added.toNat), ("ignored_duplicates", .int c.ignored.toNat),
      ("failed", .int c.failed.toNat)]

def Outcome.toJson (o : Outcome) : Json := o.counters.toJson

def Path.toJson (path : Path) : Json := ofString path.text

def Mapping.toJson (mapping : Mapping) : Json :=
  ofMembers (mapping.map fun (target, mixins) => (target, ofStrings mixins))

def TargetReport.toJson (r : TargetReport) : Json :=
  ofMembers
    [("target", ofString r.target), ("mixins", ofStrings r.mixins), ("outcome", r.outcome.toJson),
      ("digest_before", ofOption ofString r.digestBefore),
      ("digest_after", ofOption ofString r.digestAfter),
      ("written", ofOption Path.toJson r.written), ("error", ofOption ofString r.error)]

def UnionReport.toJson (r : UnionReport) : Json :=
  ofMembers
    [("type_name", ofString r.typeName), ("variants", ofStrings r.variants),
      ("outcome", r.outcome.toJson), ("written", ofOption Path.toJson r.written),
      ("error", ofOption ofString r.error)]

def Report.toJson (r : Report) : Json :=
  ofMembers
    [("mapping", r.mapping.toJson), ("targets", .arr (r.targets.map TargetReport.toJson)),
      ("unions", .arr (r.unions.map UnionReport.toJson))]

end Mixins
