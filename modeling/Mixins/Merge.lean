import Mixins.Rebind
import Mixins.TypeDef.Edit

/-!
# Merging a mixin into a target

A mixin lends its members to a target. Whatever the target declares already stays as it is; the rest
is added at the end, with references to the mixin turned into references to the target. Nested types
are merged in the same way, each into the target's nested type of the same declared name, which is
created if it is missing.

One interface is special: the constants it declares stand for types of their own. A target with the
name of that interface takes no nested type whose name is that of one of its fields.
-/

namespace Mixins

/-! ## Outcomes -/

/-- What became of the members and nested types that a merge came across: how many they are, with no
bound. `Counters` are what is kept of these numbers. -/
structure Outcome where
  added : Nat
  /-- Members that the target had already. -/
  ignored : Nat
  /-- Members that no type may have. -/
  failed : Nat
  deriving DecidableEq, Repr, Inhabited

namespace Outcome

def zero : Outcome := ⟨0, 0, 0⟩

def add (a b : Outcome) : Outcome :=
  ⟨a.added + b.added, a.ignored + b.ignored, a.failed + b.failed⟩

def oneAdded (o : Outcome) : Outcome := { o with added := o.added + 1 }

def oneIgnored (o : Outcome) : Outcome := { o with ignored := o.ignored + 1 }

def oneFailed (o : Outcome) : Outcome := { o with failed := o.failed + 1 }

end Outcome

/-- An outcome in words of the machine. The greatest word is followed by zero, or by nothing where
arithmetic is checked: a count stops there. -/
structure Counters where
  added : UInt64
  ignored : UInt64
  failed : UInt64
  deriving DecidableEq, Repr, Inhabited

namespace Counters

def zero : Counters := ⟨0, 0, 0⟩

def add (a b : Counters) : Counters :=
  ⟨a.added + b.added, a.ignored + b.ignored, a.failed + b.failed⟩

def sum (outcomes : List Counters) : Counters := outcomes.foldl add zero

/-- The numbers that the words stand for. -/
def outcome (c : Counters) : Outcome := ⟨c.added.toNat, c.ignored.toNat, c.failed.toNat⟩

end Counters

namespace Outcome

/-- What the words hold when they have counted up to the outcome. -/
def counters (o : Outcome) : Counters := ⟨.ofNat o.added, .ofNat o.ignored, .ofNat o.failed⟩

/-- Whether no number is too great for its word. -/
structure Fits (o : Outcome) : Prop where
  added : o.added < UInt64.size
  ignored : o.ignored < UInt64.size
  failed : o.failed < UInt64.size

theorem counters_outcome (c : Counters) : c.outcome.counters = c := by
  simp only [Counters.outcome, counters, UInt64.ofNat_toNat]

theorem Fits.outcome_counters {o : Outcome} (h : o.Fits) : o.counters.outcome = o := by
  simp only [counters, Counters.outcome, UInt64.toNat_ofNat_of_lt' h.added,
    UInt64.toNat_ofNat_of_lt' h.ignored, UInt64.toNat_ofNat_of_lt' h.failed]

theorem counters_oneAdded (o : Outcome) :
    o.oneAdded.counters = { o.counters with added := o.counters.added + 1 } := by
  simp only [oneAdded, counters, UInt64.ofNat_add, UInt64.ofNat_one]

theorem counters_oneIgnored (o : Outcome) :
    o.oneIgnored.counters = { o.counters with ignored := o.counters.ignored + 1 } := by
  simp only [oneIgnored, counters, UInt64.ofNat_add, UInt64.ofNat_one]

theorem counters_oneFailed (o : Outcome) :
    o.oneFailed.counters = { o.counters with failed := o.counters.failed + 1 } := by
  simp only [oneFailed, counters, UInt64.ofNat_add, UInt64.ofNat_one]

end Outcome

/-! ## Merging -/

namespace Merge

/-- The target as it has become, and what was counted on the way. -/
structure Progress where
  target : TypeDef
  outcome : Outcome
  deriving DecidableEq, Inhabited

namespace Progress

def ignored (p : Progress) : Progress := { p with outcome := p.outcome.oneIgnored }

/-- Goes on with what an attempt to add a member has made of the target, and counts it. -/
def record (p : Progress) : TypeDef × Except Failure Unit → Progress
  | (target, .ok ()) => ⟨target, p.outcome.oneAdded⟩
  | (target, .error (.duplicateMember _ _)) => ⟨target, p.outcome.oneIgnored⟩
  | (target, .error _) => ⟨target, p.outcome.oneFailed⟩

def mergeMethod (owner : String) (p : Progress) (m : Method) : Progress :=
  if p.target.hasMethod m.name then p.ignored
  else p.record (p.target.addMethod (m.rebind owner p.target.name))

def mergeField (owner : String) (p : Progress) (f : Field) : Progress :=
  if p.target.hasField f.name then p.ignored
  else p.record (p.target.addField (f.rebind owner p.target.name))

def mergeConstructor (owner : String) (p : Progress) (c : Constructor) : Progress :=
  p.record (p.target.addConstructor (c.rebind owner p.target.name))

/-- Merges the members of a declaration: methods, then fields, then constructors. -/
def mergeMembers (d : Declaration) (p : Progress) : Progress :=
  let p := d.methods.foldl (mergeMethod d.name) p
  let p := d.fields.foldl (mergeField d.name) p
  d.constructors.foldl (mergeConstructor d.name) p

end Progress

/-- Whether `target` is the interface of string types and declares a field that stands for `nested`.
-/
def standsAsField (interfaceName : String) (target nested : TypeDef) : Bool :=
  target.simpleName == interfaceName && target.hasField (Name.withoutOuter nested.simpleName)

mutual
/-- Merges a mixin into the target: its nested types first, then its members. -/
def merge (interfaceName : String) : TypeDef → Progress → Progress
  | ⟨declaration, nested⟩, p => (mergeNested interfaceName nested p).mergeMembers declaration
def mergeNested (interfaceName : String) : List TypeDef → Progress → Progress
  | [], p => p
  | n :: ns, p =>
    if standsAsField interfaceName p.target n then mergeNested interfaceName ns p
    else
      let (target, i, created) := p.target.nestedOrInsert n.innerName n.kind n.access
      let outcome := if created then p.outcome.oneAdded else p.outcome
      match target.nested[i]? with
      | none => mergeNested interfaceName ns ⟨target, outcome⟩
      | some own =>
        let inner := merge interfaceName n ⟨own, outcome⟩
        mergeNested interfaceName ns
          ⟨{ target with nested := target.nested.set i inner.target }, inner.outcome⟩
end

end Merge

/-- The type with `mixin` merged into it, and `outcome` with what was counted. -/
def TypeDef.mergeMixin (interfaceName : String) (target mixin : TypeDef) (outcome : Outcome) :
    Merge.Progress :=
  Merge.merge interfaceName mixin ⟨target, outcome⟩

end Mixins
