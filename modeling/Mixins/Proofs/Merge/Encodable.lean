import Mixins.Proofs.WellFormed
import Mixins.Proofs.Wire.Bounded

/-!
# Merging and the limits of the format

A merged type has a file if both types that went into it have one and none of its texts and lists is
too long. It is never too deep: what a mixin lends stands as deep in the target as it stood in the
mixin, rebinding only changes names, and a nested type that is created stands no deeper than the one
it is created for. Nor does it have a map that is too long, for the markers are the target's own.

* `Declaration.depth_absorb_le` — the members that a declaration takes over.
* `depth_merged_le` — how deep the merged type is.
* `mapLengths_merged_le` — how long the maps of the merged type are.
* `mergeMixin_encodable` — which merged types have a file.
-/

namespace Mixins

open Wire

/-! ## Depths -/

/-- The members that are gathered are no deeper than those that were there and those that are lent,
for rebinding keeps their depth. -/
theorem deepest_gather_le {α : Type} {depth : α → Nat} {admits : List α → α → Bool}
    {rebind : α → α} (hrebind : ∀ x, depth (rebind x) = depth x) {own lent : List α} {bound : Nat}
    (hown : deepest depth own ≤ bound) (hlent : deepest depth lent ≤ bound) :
    deepest depth (gather admits own (lent.map rebind)) ≤ bound := by
  rw [← deepest_map hrebind] at hlent
  rw [deepest_le_iff] at hown hlent ⊢
  intro x hx
  rcases mem_gather hx with hx | hx
  · exact hown x hx
  · exact hlent x hx

theorem Declaration.depth_le_iff {d : Declaration} {bound : Nat} :
    d.depth ≤ bound ↔ 1 ≤ bound ∧ deepest Marker.depth d.markers ≤ bound ∧
      deepest Field.depth d.fields ≤ bound ∧ deepest Method.depth d.methods ≤ bound ∧
      deepest Constructor.depth d.constructors ≤ bound := by
  simp only [depth, Nat.max_le]

theorem Declaration.depth_absorb_le {own lent : Declaration} {bound : Nat}
    (hown : own.depth ≤ bound) (hlent : lent.depth ≤ bound) : (own.absorb lent).depth ≤ bound := by
  obtain ⟨hkind, hmarkers, hfields, hmethods, hconstructors⟩ := depth_le_iff.1 hown
  obtain ⟨-, -, hfields', hmethods', hconstructors'⟩ := depth_le_iff.1 hlent
  exact depth_le_iff.2 ⟨hkind, hmarkers,
    deepest_gather_le (Field.depth_rebind lent.name own.name) hfields hfields',
    deepest_gather_le (Method.depth_rebind lent.name own.name) hmethods hmethods',
    deepest_gather_le (Constructor.depth_rebind lent.name own.name) hconstructors hconstructors'⟩

namespace TypeDef

open Merge (freshFor)

variable {interfaceName : String} {t m : TypeDef}

theorem depth_le_iff {t : TypeDef} {bound : Nat} :
    t.depth ≤ bound + 1 ↔ t.toDeclaration.depth ≤ bound ∧ ∀ n ∈ t.nested, n.depth ≤ bound := by
  rw [depth_eq, Nat.add_le_add_iff_right, Nat.max_le, deepest_le_iff]

theorem depth_freshFor_le (t n : TypeDef) : (freshFor t n).depth ≤ n.depth := by
  rw [depth_eq n]
  have : 1 ≤ n.toDeclaration.depth := Nat.le_max_left ..
  exact Nat.add_le_add_right (Nat.le_trans this (Nat.le_max_left ..)) 1

theorem depth_merged_le {bound : Nat} (ht : t.depth ≤ bound) (hm : m.depth ≤ bound) :
    (t.merged interfaceName m).depth ≤ bound := by
  induction m using nestedInduction generalizing t bound with
  | step m ih =>
    cases bound with
    | zero => rw [depth_eq] at hm; omega
    | succ bound =>
      obtain ⟨hroot, hbranch⟩ := depth_le_iff.1 ht
      obtain ⟨hroot', hbranch'⟩ := depth_le_iff.1 hm
      rw [depth_le_iff, merged_declaration, merged_nested]
      exact ⟨Declaration.depth_absorb_le hroot hroot', forall_nested_mergedNested
        (fun n hn t => Nat.le_trans (depth_freshFor_le t n) (hbranch' n hn)) hbranch
        fun n hn own hown => ih n hn hown (hbranch' n hn)⟩

/-! ## Lengths -/

theorem mapLengths_le_iff {bound : Nat} : (∀ n ∈ t.mapLengths, n ≤ bound) ↔
    t.AtEveryDepth fun d => ∀ n ∈ d.mapLengths, n ≤ bound := List.forall_mem_flatMap

theorem mapLengths_merged_le {bound : Nat} (ht : ∀ n ∈ t.mapLengths, n ≤ bound) (m : TypeDef) :
    ∀ n ∈ (t.merged interfaceName m).mapLengths, n ≤ bound := by
  rw [mapLengths_le_iff] at ht ⊢
  -- A declaration that takes over members keeps its markers; an empty type has none.
  exact ht.merged (fun _ _ _ hn => nomatch hn) (fun _ _ hown => hown) m

/-! ## Type files -/

/-- **A merged type has a file** just if none of its texts and lists is too long, provided that both
types that went into it have one. How deep it is never stands in the way. -/
theorem mergeMixin_encodable {target mixin : TypeDef}
    (htarget : ∃ content, target.toBytes = .ok content)
    (hmixin : ∃ content, mixin.toBytes = .ok content) (interfaceName : String) (outcome : Outcome) :
    let result := (target.mergeMixin interfaceName mixin outcome).target
    result.depth ≤ maxDepth ∧
      ((∃ content, result.toBytes = .ok content) ↔ ∀ n ∈ result.lengths, n ≤ maxLength) := by
  obtain ⟨hdepth, -, hmaps⟩ := (toBytes_succeeds_iff target).1 htarget
  have hdepth' := ((toBytes_succeeds_iff mixin).1 hmixin).1
  rw [mergeMixin, Merge.merge_target]
  have hresult : (target.merged interfaceName mixin).depth ≤ maxDepth :=
    depth_merged_le hdepth hdepth'
  refine ⟨hresult, (toBytes_succeeds_iff _).trans ⟨?_, ?_⟩⟩
  · rintro ⟨-, hlengths, -⟩
    exact hlengths
  · intro hlengths
    exact ⟨hresult, hlengths, mapLengths_merged_le hmaps mixin⟩

/-- A mixin that is as deep as can be written lends its deepest field to a type that it creates. -/
theorem mergeMixin_encodable_deepest :
    let arrays : ValueType := (List.replicate 496 ()).foldr (fun _ v => .array v) (.object "a.M$I")
    let inner : TypeDef :=
      { bare "a.M$I" .classType with fields := [⟨"x", arrays, publicAccess, none⟩] }
    let mixin : TypeDef := { bare "a.M" .classType with nested := [inner] }
    let result := ((bare "b.T" .enumType).mergeMixin "StringTypes" mixin .zero).target
    (∃ content, (bare "b.T" .enumType).toBytes = .ok content) ∧
      (∃ content, mixin.toBytes = .ok content) ∧ mixin.depth = maxDepth ∧
      result.depth = maxDepth ∧ ∃ content, result.toBytes = .ok content := by
  intro arrays inner mixin result
  have htarget := (toBytes_succeeds_iff (bare "b.T" .enumType)).2 (by decide)
  have hmixin := (toBytes_succeeds_iff mixin).2 (by decide +kernel)
  have hresult := mergeMixin_encodable htarget hmixin "StringTypes" .zero
  exact ⟨htarget, hmixin, by decide +kernel, by decide +kernel, hresult.2.2 (by decide +kernel)⟩

end TypeDef

end Mixins
