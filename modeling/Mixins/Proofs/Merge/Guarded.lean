import Mixins.Proofs.Merge.Level

/-!
# Entries that the interface of string types declares

The interface of string types passes a nested type of a mixin over if it declares a field for it.
The field is looked for under what follows the first dollar sign of the nested type's simple name.
That is the name the nested type was declared with, if the mixin is not nested itself; if it is,
what the mixin's own name adds to that of its outermost type comes before it.

* `nestedType?_merged_isSome_iff` — when a target gains a nested type.
* `mergeMixin_guarded` — what the interface of string types gains, and from which mixins.
* `mergeMixin_unguarded` — a nested mixin is not kept out by a field of the declared name alone.
-/

namespace Mixins

theorem Name.nested_nested (outer path inner : String) :
    nested (nested outer path) inner = nested outer (nested path inner) := by
  rw [← String.toList_inj]
  simp [toList_nested]

namespace TypeDef

open Merge

variable {t m : TypeDef}

/-- **When a target gains a nested type** that it does not have: if the mixin has it and it is not
passed over. -/
theorem nestedType?_merged_isSome_iff (interfaceName : String) (ht : t.WellNamed)
    (hm : m.WellNamed) {inner : String} (hnone : t.nestedType? inner = none) :
    ((t.merged interfaceName m).nestedType? inner).isSome = true ↔
      (m.nestedType? inner).isSome = true ∧
        (t.simpleName = interfaceName →
          t.hasField (Name.withoutOuter (Name.nested m.simpleName inner)) = false) := by
  rw [nestedType?_merged ht hm]
  cases hlent : m.nestedType? inner with
  | none => simp [hnone]
  | some n =>
    obtain ⟨hn, rfl⟩ := nestedType?_some hlent
    dsimp only
    rw [standsAsField, hm.simpleName_branch hn, hnone]
    by_cases hname : t.simpleName = interfaceName
    · cases hfield : t.hasField (Name.withoutOuter (Name.nested m.simpleName n.innerName)) <;>
        simp [hname]
    · simp [hname]

/-- **What the interface of string types gains.** It takes a nested type just if it declares no
field under what follows the first dollar sign of the nested type's simple name. From a mixin that
is not nested these are the nested types of which it declares no field, so that a declared entry
stays what it is. From a nested mixin it takes those of which it declares no field under the longer
name. -/
theorem mergeMixin_guarded {interfaceName : String} {target mixin : TypeDef}
    (htarget : target.WellNamed) (hmixin : mixin.WellNamed)
    (hname : target.simpleName = interfaceName) {inner : String}
    (hnone : target.nestedType? inner = none) (outcome : Outcome) :
    let gained := (target.mergeMixin interfaceName mixin outcome).target.nestedType? inner
    (gained.isSome = true ↔ (mixin.nestedType? inner).isSome = true ∧
      target.hasField (Name.withoutOuter (Name.nested mixin.simpleName inner)) = false) ∧
    ('$' ∉ mixin.simpleName.toList →
      (gained.isSome = true ↔
        (mixin.nestedType? inner).isSome = true ∧ target.hasField inner = false)) ∧
    ∀ outer path, mixin.simpleName = Name.nested outer path → outer ≠ "" → '$' ∉ outer.toList →
      (gained.isSome = true ↔ (mixin.nestedType? inner).isSome = true ∧
        target.hasField (Name.nested path inner) = false) := by
  intro gained
  have hmerged : (target.mergeMixin interfaceName mixin outcome).target =
      target.merged interfaceName mixin := merge_target mixin ⟨target, outcome⟩
  have hgained : gained = (target.merged interfaceName mixin).nestedType? inner :=
    congrArg (·.nestedType? inner) hmerged
  have hiff := nestedType?_merged_isSome_iff interfaceName htarget hmixin hnone
  rw [hgained, hiff]
  refine ⟨by simp [hname], fun hdollar => ?_, fun outer path hsimple _ hdollar => ?_⟩
  · rw [Name.withoutOuter_nested hdollar]
    simp [hname]
  · rw [hsimple, Name.nested_nested, Name.withoutOuter_nested hdollar]
    simp [hname]

/-- The interface of string types with a field for each of the names. -/
def stringTypes (fields : List String) : TypeDef :=
  { bare "u.StringTypes" .interfaceType with
    fields := fields.map fun name => ⟨name, .str, publicAccess, none⟩ }

/-- A class with an interface in it for each of the names. -/
def offering (name : String) (inners : List String) : TypeDef :=
  { bare name .classType with
    nested := inners.map fun inner => bare (Name.nested name inner) .interfaceType }

/-- An entry that is declared is passed over and another one is taken; from a nested mixin, an entry
that is declared under the longer name is passed over. -/
theorem mergeMixin_guarded_declared :
    let target := stringTypes ["div", "P$a"]
    let mixin := offering "a.M" ["div", "span"]
    let inside := offering "a.O$P" ["a", "b"]
    (target.WellNamed ∧ mixin.WellNamed ∧ inside.WellNamed ∧ target.simpleName = "StringTypes") ∧
    ¬ ((target.mergeMixin "StringTypes" mixin .zero).target.nestedType? "div").isSome = true ∧
    ((target.mergeMixin "StringTypes" mixin .zero).target.nestedType? "span").isSome = true ∧
    ¬ ((target.mergeMixin "StringTypes" inside .zero).target.nestedType? "a").isSome = true ∧
    ((target.mergeMixin "StringTypes" inside .zero).target.nestedType? "b").isSome = true := by
  intro target mixin inside
  have htarget : target.WellNamed := by decide
  have hmixin : mixin.WellNamed := by decide
  have hinside : inside.WellNamed := by decide
  have hname : target.simpleName = "StringTypes" := by decide
  have hdollar : '$' ∉ mixin.simpleName.toList := by decide
  have hsimple : inside.simpleName = Name.nested "O" "P" := by decide
  have hnone : ∀ inner, target.nestedType? inner = none := fun _ => rfl
  have houtside := fun inner =>
    (mergeMixin_guarded htarget hmixin hname (hnone inner) .zero).2.1 hdollar
  have hnested := fun inner =>
    (mergeMixin_guarded htarget hinside hname (hnone inner) .zero).2.2 "O" "P" hsimple
      (by decide) (by decide)
  refine ⟨⟨htarget, hmixin, hinside, hname⟩, ?_, ?_, ?_, ?_⟩
  · rw [houtside]
    decide
  · rw [houtside]
    decide
  · rw [hnested]
    decide
  · rw [hnested]
    decide

/-- From a nested mixin the interface of string types takes a nested type that it declares a field
for. -/
theorem mergeMixin_unguarded :
    let target := stringTypes ["div"]
    let mixin := offering "a.O$P" ["div"]
    target.WellNamed ∧ mixin.WellNamed ∧ target.simpleName = "StringTypes" ∧
    '$' ∉ "StringTypes".toList ∧
    target.hasField "div" = true ∧ target.nestedType? "div" = none ∧
    ((target.mergeMixin "StringTypes" mixin .zero).target.nestedType? "div").isSome = true := by
  decide +kernel

end TypeDef

end Mixins
