import Mathlib.Logic.Relation
import Mixins.Merge

/-!
# What a merge can do

A merge is a run of elementary changes: it counts a member and leaves the target alone, it puts one
member or one empty nested type last, or it does one of these things inside a nested type. `Change`
lists them, so that what every elementary change keeps is kept by every merge.

* `mergeNested_one`, `mergeNested_cons` — what becomes of one nested type of a mixin, one after the
  other.
* `mergeMethod_change`, `mergeField_change`, `mergeConstructor_change` — a member is one change.
* `merge_changes` — a merge is a run of changes.
-/

namespace Mixins.Merge

open TypeDef

/-! ## One nested type of a mixin -/

/-- The empty type that a target creates for a nested type of a mixin. -/
def freshFor (t n : TypeDef) : TypeDef :=
  { bare (Name.nested t.name n.innerName) n.kind with access := n.access }

/-- What becomes of the nested type `n` of a mixin. -/
inductive NestedStep (interfaceName : String) (n : TypeDef) (p : Progress) : Progress → Prop
  | passedOver (h : standsAsField interfaceName p.target n = true) : NestedStep interfaceName n p p
  | merged {before after : List TypeDef} {own : TypeDef}
      (h : standsAsField interfaceName p.target n = false)
      (split : p.target.nested = before ++ own :: after)
      (first : ∀ x ∈ before, x.innerName ≠ n.innerName) (same : own.innerName = n.innerName) :
      NestedStep interfaceName n p
        ⟨{ p.target with
            nested := before ++ (merge interfaceName n ⟨own, p.outcome⟩).target :: after },
          (merge interfaceName n ⟨own, p.outcome⟩).outcome⟩
  | created (h : standsAsField interfaceName p.target n = false)
      (new : ∀ x ∈ p.target.nested, x.innerName ≠ n.innerName) :
      NestedStep interfaceName n p
        ⟨{ p.target with
            nested := p.target.nested ++
              [(merge interfaceName n ⟨freshFor p.target n, p.outcome.oneAdded⟩).target] },
          (merge interfaceName n ⟨freshFor p.target n, p.outcome.oneAdded⟩).outcome⟩

theorem findIdx?_of_split {inner : String} {before after : List TypeDef} {own : TypeDef}
    (first : ∀ x ∈ before, x.innerName ≠ inner) (same : own.innerName = inner) :
    (before ++ own :: after).findIdx? (·.innerName == inner) = some before.length := by
  have hbefore : before.findIdx? (·.innerName == inner) = none :=
    List.findIdx?_eq_none_iff.2 fun x hx => by simpa using first x hx
  rw [List.findIdx?_append, hbefore]
  simp [List.findIdx?_cons, same]

theorem split_or_new (ts : List TypeDef) (inner : String) :
    (∃ before own after, ts = before ++ own :: after ∧ (∀ x ∈ before, x.innerName ≠ inner) ∧
      own.innerName = inner) ∨ ∀ x ∈ ts, x.innerName ≠ inner := by
  cases hfind : ts.find? (·.innerName == inner) with
  | some own =>
    obtain ⟨hown, before, after, hsplit, hbefore⟩ := List.find?_eq_some_iff_append.1 hfind
    exact .inl ⟨before, own, after, hsplit, by simpa using hbefore, by simpa using hown⟩
  | none => exact .inr (by simpa using hfind)

theorem mergeNested_of_split {interfaceName : String} {n : TypeDef} {p : Progress}
    {before after : List TypeDef} {own : TypeDef}
    (h : standsAsField interfaceName p.target n = false)
    (split : p.target.nested = before ++ own :: after)
    (first : ∀ x ∈ before, x.innerName ≠ n.innerName) (same : own.innerName = n.innerName) :
    mergeNested interfaceName [n] p =
      ⟨{ p.target with
          nested := before ++ (merge interfaceName n ⟨own, p.outcome⟩).target :: after },
        (merge interfaceName n ⟨own, p.outcome⟩).outcome⟩ := by
  rw [mergeNested, if_neg (by simp [h]), nestedOrInsert, split, findIdx?_of_split first same]
  simp [split, mergeNested]

theorem mergeNested_of_new {interfaceName : String} {n : TypeDef} {p : Progress}
    (h : standsAsField interfaceName p.target n = false)
    (new : ∀ x ∈ p.target.nested, x.innerName ≠ n.innerName) :
    mergeNested interfaceName [n] p =
      ⟨{ p.target with
          nested := p.target.nested ++
            [(merge interfaceName n ⟨freshFor p.target n, p.outcome.oneAdded⟩).target] },
        (merge interfaceName n ⟨freshFor p.target n, p.outcome.oneAdded⟩).outcome⟩ := by
  have hnone : p.target.nested.findIdx? (·.innerName == n.innerName) = none :=
    List.findIdx?_eq_none_iff.2 fun x hx => by simpa using new x hx
  rw [mergeNested, if_neg (by simp [h]), nestedOrInsert, hnone]
  simp [freshFor, mergeNested]

theorem mergeNested_one (interfaceName : String) (n : TypeDef) (p : Progress) :
    NestedStep interfaceName n p (mergeNested interfaceName [n] p) := by
  cases h : standsAsField interfaceName p.target n with
  | true =>
    rw [mergeNested, if_pos h, mergeNested]
    exact .passedOver h
  | false =>
    rcases split_or_new p.target.nested n.innerName with
      ⟨before, own, after, split, first, same⟩ | new
    · rw [mergeNested_of_split h split first same]
      exact .merged h split first same
    · rw [mergeNested_of_new h new]
      exact .created h new

theorem mergeNested_cons (interfaceName : String) (n : TypeDef) (ns : List TypeDef) (p : Progress) :
    mergeNested interfaceName (n :: ns) p =
      mergeNested interfaceName ns (mergeNested interfaceName [n] p) := by
  rw [mergeNested, mergeNested]
  split
  · rfl
  · simp only
    split <;> rfl

/-! ## Elementary changes -/

/-- The progress of a merge into the nested type between `before` and `after`, seen from the type
around it. -/
def Progress.inside (d : Declaration) (before after : List TypeDef) (p : Progress) : Progress :=
  ⟨⟨d, before ++ p.target :: after⟩, p.outcome⟩

theorem Progress.eq_inside (p : Progress) {before after : List TypeDef} {own : TypeDef}
    (split : p.target.nested = before ++ own :: after) :
    p = Progress.inside p.target.toDeclaration before after ⟨own, p.outcome⟩ := by
  obtain ⟨⟨d, nested⟩, o⟩ := p
  simp only at split
  rw [Progress.inside, ← split]

/-- What becomes of one member of a mixin. -/
inductive MemberChange : Progress → Progress → Prop
  | ignored (p : Progress) : MemberChange p p.ignored
  | failed (p : Progress) : MemberChange p { p with outcome := p.outcome.oneFailed }
  | method (p : Progress) (m : Method) :
      MemberChange p ⟨{ p.target with methods := p.target.methods ++ [m] }, p.outcome.oneAdded⟩
  | field (p : Progress) (f : Field) :
      MemberChange p ⟨{ p.target with fields := p.target.fields ++ [f] }, p.outcome.oneAdded⟩
  | ofConstructor (p : Progress) (c : Constructor) :
      MemberChange p
        ⟨{ p.target with constructors := p.target.constructors ++ [c] }, p.outcome.oneAdded⟩

/-- The elementary changes that a merge makes. -/
inductive Change : Progress → Progress → Prop
  | member {p q : Progress} (h : MemberChange p q) : Change p q
  | created (p : Progress) (n : TypeDef) :
      Change p ⟨{ p.target with nested := p.target.nested ++ [freshFor p.target n] },
        p.outcome.oneAdded⟩
  | inside (d : Declaration) (before after : List TypeDef) {p q : Progress} (h : Change p q) :
      Change (p.inside d before after) (q.inside d before after)

/-- A run of changes. -/
abbrev Changes : Progress → Progress → Prop := Relation.ReflTransGen Change

theorem Changes.inside (d : Declaration) (before after : List TypeDef) {p q : Progress}
    (h : Changes p q) : Changes (p.inside d before after) (q.inside d before after) := by
  induction h with
  | refl => exact .refl
  | tail _ hstep ih => exact ih.tail (.inside d before after hstep)

/-- An attempt to add a member that leaves the target as it was when it fails is a change if its
success is. -/
theorem record_change {p : Progress} {attempt : TypeDef × Except Failure Unit} {t : TypeDef}
    (h : (∃ cause, attempt = (p.target, .error cause)) ∨ attempt = (t, .ok ()))
    (hadded : MemberChange p ⟨t, p.outcome.oneAdded⟩) : MemberChange p (p.record attempt) := by
  rcases h with ⟨cause, rfl⟩ | rfl
  · cases cause with
    | duplicateMember => exact .ignored p
    | notFound | malformed | file => exact .failed p
  · exact hadded

theorem mergeMethod_change (owner : String) (p : Progress) (m : Method) :
    MemberChange p (p.mergeMethod owner m) := by
  unfold Progress.mergeMethod
  split
  · exact .ignored p
  · exact record_change (addMethod_cases p.target _) (.method p _)

theorem mergeField_change (owner : String) (p : Progress) (f : Field) :
    MemberChange p (p.mergeField owner f) := by
  unfold Progress.mergeField
  split
  · exact .ignored p
  · exact record_change (addField_cases p.target _) (.field p _)

theorem mergeConstructor_change (owner : String) (p : Progress) (c : Constructor) :
    MemberChange p (p.mergeConstructor owner c) :=
  record_change (addConstructor_cases p.target _) (.ofConstructor p _)

/-! ## A merge is a run of changes -/

theorem foldl_changes {α : Type} {step : Progress → α → Progress}
    (h : ∀ p x, MemberChange p (step p x)) (items : List α) (p : Progress) :
    Changes p (items.foldl step p) := by
  induction items generalizing p with
  | nil => exact .refl
  | cons x items ih => exact .head (.member (h p x)) (ih (step p x))

theorem mergeMembers_changes (d : Declaration) (p : Progress) : Changes p (p.mergeMembers d) := by
  refine (foldl_changes (mergeMethod_change d.name) d.methods p).trans ?_
  refine (foldl_changes (mergeField_change d.name) d.fields _).trans ?_
  exact foldl_changes (mergeConstructor_change d.name) d.constructors _

mutual
theorem merge_changes (interfaceName : String) : ∀ (m : TypeDef) (p : Progress),
    Changes p (merge interfaceName m p)
  | ⟨d, nested⟩, p => by
    rw [merge]
    exact (mergeNested_changes interfaceName nested p).trans (mergeMembers_changes d _)
theorem mergeNested_changes (interfaceName : String) : ∀ (ns : List TypeDef) (p : Progress),
    Changes p (mergeNested interfaceName ns p)
  | [], p => by
    rw [mergeNested]
  | n :: ns, p => by
    rw [mergeNested_cons]
    refine Relation.ReflTransGen.trans ?_ (mergeNested_changes interfaceName ns _)
    have hstep := mergeNested_one interfaceName n p
    generalize mergeNested interfaceName [n] p = q at hstep
    cases hstep with
    | passedOver => exact .refl
    | @merged before after own h split first same =>
      have hinner := (merge_changes interfaceName n ⟨own, p.outcome⟩).inside
        p.target.toDeclaration before after
      rw [← p.eq_inside split] at hinner
      exact hinner
    | created =>
      -- the nested type is there, still empty, before anything is merged into it
      have hinner := (merge_changes interfaceName n
        ⟨freshFor p.target n, p.outcome.oneAdded⟩).inside
        p.target.toDeclaration p.target.nested []
      exact .head (.created p n) hinner
end

end Mixins.Merge
