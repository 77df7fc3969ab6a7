import Mathlib.Data.List.Nodup
import Mixins.Proofs.Rebind

/-!
# Rebinding undone

Rebinding from one owner to another can be undone by rebinding the other way round, as long as it is
known which references to the new owner have been moved there. It is known if there were none
before.

* `rebind_rebind_eq_self_iff` — a value is restored exactly if each of its references to the new
  owner was one to the old owner too.
* `rebind_undone` — a value that does not refer to the new owner is restored, so that no two values
  of that kind become one.
-/

namespace Mixins

/-- A name comes back unless it lies below the name it would have been moved to, and not below the
name it would have been moved from. -/
theorem Name.rebind_rebind_eq_self_iff {name source destination : String} :
    rebind (rebind name source destination) destination source = name ↔
      (Within destination name → Within source name) := by
  constructor
  · intro hback hdestination
    by_contra hsource
    rw [rebind_of_not_within destination hsource] at hback
    have hmoved := rebind_of_within source hdestination
    rw [hback] at hmoved
    exact hsource hmoved
  · intro h
    by_cases hsource : Within source name
    · rcases hsource with rfl | ⟨rest, rfl⟩
      · rw [rebind_self, rebind_self]
      · rw [rebind_nested, rebind_nested]
    · have hdestination : ¬ Within destination name := fun hd => hsource (h hd)
      rw [rebind_of_not_within destination hsource, rebind_of_not_within source hdestination]

namespace Rebindable

/-- Whether the value refers neither to `owner` nor to a type nested in it. -/
def FreeOf (owner : String) (x : Rebindable) : Prop := ∀ r ∈ x.references, ¬ Name.Within owner r

instance (owner : String) (x : Rebindable) : Decidable (x.FreeOf owner) :=
  inferInstanceAs (Decidable (∀ r ∈ x.references, ¬ Name.Within owner r))

variable {source destination : String} {x y : Rebindable}

/-- **A value is restored** exactly if each of its references to the new owner was one to the old
owner too. -/
theorem rebind_rebind_eq_self_iff :
    (x.rebind source destination).rebind destination source = x ↔
      ∀ r ∈ x.references, Name.Within destination r → Name.Within source r := by
  constructor
  · intro hback r hr
    have hreferences := congrArg references hback
    rw [references_rebind, references_rebind, List.map_map] at hreferences
    have hsame := List.map_inj_left.1 (hreferences.trans (List.map_id _).symm) r hr
    exact Name.rebind_rebind_eq_self_iff.1 hsame
  · intro h
    rw [rebind_eq_mapReferences, rebind_eq_mapReferences, mapReferences_mapReferences]
    exact mapReferences_eq_self fun r hr => Name.rebind_rebind_eq_self_iff.2 (h r hr)

theorem FreeOf.rebind_rebind (h : x.FreeOf destination) (source : String) :
    (x.rebind source destination).rebind destination source = x :=
  rebind_rebind_eq_self_iff.2 fun r hr hwithin => absurd hwithin (h r hr)

/-- What has been rebound tells what it was before. -/
theorem FreeOf.rebind_injective (hx : x.FreeOf destination) (hy : y.FreeOf destination)
    (h : x.rebind source destination = y.rebind source destination) : x = y := by
  rw [← hx.rebind_rebind source, h, hy.rebind_rebind]

/-- **Rebinding is undone** by rebinding the other way round, if the value does not refer to the new
owner or to a type nested in it. So two such values that become one are one, and members that are
distinct stay distinct. -/
theorem rebind_undone (source destination : String) :
    (∀ x : Rebindable, x.FreeOf destination →
      (x.rebind source destination).rebind destination source = x) ∧
    (∀ x y : Rebindable, x.FreeOf destination → y.FreeOf destination →
      x.rebind source destination = y.rebind source destination → x = y) ∧
    ∀ members : List Rebindable, (∀ x ∈ members, x.FreeOf destination) → members.Nodup →
      (members.map (rebind source destination)).Nodup := by
  refine ⟨fun x hx => hx.rebind_rebind source, fun x y hx hy => hx.rebind_injective hy, ?_⟩
  intro members hfree hdistinct
  exact hdistinct.map_on fun x hx y hy => (hfree x hx).rebind_injective (hfree y hy)

/-- Two methods of an outer type that are moved into a type nested in it, where only the depth of
the references tells what they were before. -/
theorem rebind_undone_inward :
    let x := method ⟨"f", ⟨[.array (.object "a.M$B")], .object "a.M"⟩, publicAccess,
      some ⟨1, 1, [42], [.fieldRef "a.M" "a.M$A" (.object "a.Mixin")]⟩,
      some (.array [.typeRef "a.M$AB", .str "a.M$A"])⟩
    let y := method ⟨"f", ⟨[], .object "a.M$B$A"⟩, publicAccess, none, none⟩
    (x.FreeOf "a.M$A" ∧ y.FreeOf "a.M$A") ∧
    (x.rebind "a.M" "a.M$A").references = ["a.M$A$B", "a.M$A", "a.M$A", "a.Mixin", "a.M$A$AB"] ∧
    (x.rebind "a.M" "a.M$A").rebind "a.M$A" "a.M" = x ∧
    ([x, y].map (rebind "a.M" "a.M$A")).Nodup := by
  intro x y
  have hx : x.FreeOf "a.M$A" := by decide
  have hy : y.FreeOf "a.M$A" := by decide
  obtain ⟨hback, -, hdistinct⟩ := rebind_undone "a.M" "a.M$A"
  have hmembers : ∀ z ∈ [x, y], z.FreeOf "a.M$A" := by
    simpa using ⟨hx, hy⟩
  exact ⟨⟨hx, hy⟩, by decide, hback x hx, hdistinct [x, y] hmembers (by decide)⟩

end Rebindable

end Mixins
