import Mixins.Proofs.Merge.Accounting

/-!
# The words that a merge counts in

The numbers of an outcome are kept in words of the machine, which may have counted before and may
pass zero again. What a merge counts is fewer than there are words, so that the difference of two
readings is the number counted between them all the same.

* `Change.step`, `Changes.steps` — each change is counted by one word.
* `Outcome.Grows.since` — the difference of two readings is the number counted.
* `mergeMixin_accounts` — the accounts of a merge, whatever has been counted before.
-/

namespace Mixins

/-! ## Counting in words -/

/-- One more in one of the words. -/
inductive Counters.Step : Counters → Counters → Prop where
  | added (c : Counters) : Step c { c with added := c.added + 1 }
  | ignored (c : Counters) : Step c { c with ignored := c.ignored + 1 }
  | failed (c : Counters) : Step c { c with failed := c.failed + 1 }

/-- Each change is counted by one word. -/
theorem Merge.Change.step {p q : Progress} (h : Change p q) :
    Counters.Step p.outcome.counters q.outcome.counters := by
  induction h with
  | member h =>
    cases h with
    | ignored => exact Outcome.counters_oneIgnored _ ▸ .ignored _
    | failed => exact Outcome.counters_oneFailed _ ▸ .failed _
    | method | field | ofConstructor => exact Outcome.counters_oneAdded _ ▸ .added _
  | created p n => exact Outcome.counters_oneAdded _ ▸ .added _
  | inside _ _ _ _ ih => exact ih

/-- A merge counts in words, one after the other. -/
theorem Merge.Changes.steps {p q : Progress} (h : Changes p q) :
    Relation.ReflTransGen Counters.Step p.outcome.counters q.outcome.counters :=
  h.lift (·.outcome.counters) fun _ _ => Change.step

/-- If the numbers fit their words in the end, they did so all the way: checked arithmetic does not
stop a merge that ends with such an outcome. -/
theorem Outcome.Grows.fits {o o' : Outcome} (h : o.Grows o') (hfits : o'.Fits) : o.Fits :=
  ⟨Nat.lt_of_le_of_lt h.added hfits.added, Nat.lt_of_le_of_lt h.ignored hfits.ignored,
    Nat.lt_of_le_of_lt h.failed hfits.failed⟩

/-- What the words have counted since they were read: the difference, past zero where the count has
passed it. -/
def Counters.since (after before : Counters) : Counters :=
  ⟨after.added - before.added, after.ignored - before.ignored, after.failed - before.failed⟩

theorem toNat_ofNat_sub_ofNat {a b : Nat} (hle : a ≤ b) (hlt : b - a < UInt64.size) :
    (UInt64.ofNat b - UInt64.ofNat a).toNat = b - a := by
  rw [← UInt64.ofNat_sub hle, UInt64.toNat_ofNat_of_lt' hlt]

/-- **The difference of words is the number counted**, unless this is too great for a word itself.
-/
theorem Outcome.Grows.since {o o' : Outcome} (h : o.Grows o')
    (hlt : o'.counted < o.counted + UInt64.size) :
    o' = o.add (o'.counters.since o.counters).outcome := by
  obtain ⟨hadded, hignored, hfailed⟩ := h
  unfold counted at hlt
  simp only [counters, Counters.since, Counters.outcome, add,
    toNat_ofNat_sub_ofNat hadded (by omega), toNat_ofNat_sub_ofNat hignored (by omega),
    toNat_ofNat_sub_ofNat hfailed (by omega), Nat.add_sub_cancel' hadded,
    Nat.add_sub_cancel' hignored, Nat.add_sub_cancel' hfailed]

/-! ## The accounts of a merge -/

namespace TypeDef

/-- **The accounts of a merge**, in words that have counted before, whatever they hold, and count on
one by one. The mixin has fewer members and nested types than there are words, as any that is in
memory.

The increase of what is added is the growth of the target, which stays the same just if that word
does. What is counted, less the nested types created, is the members of the mixin at every depth, or
fewer if a nested type is passed over. No nested type is removed, so that those created are as many
as the target has more. Unless a word has passed the greatest, which checked arithmetic does not
let it, the words have grown by the increase. -/
theorem mergeMixin_accounts (interfaceName : String) (target mixin : TypeDef)
    (hmixin : mixin.size < UInt64.size) (before : Counters) :
    let result := target.mergeMixin interfaceName mixin before.outcome
    let after := result.outcome.counters
    let increase := (after.since before).outcome
    let created : Int := result.target.nestedTotal - target.nestedTotal
    Relation.ReflTransGen Counters.Step before after ∧
    (increase.added : Int) = result.target.size - target.size ∧
    (result.target = target ↔ after.added = before.added) ∧
    0 ≤ created ∧
    (Merge.passedOver interfaceName mixin target = [] →
      increase.counted - created = mixin.memberTotal) ∧
    increase.counted - created ≤ mixin.memberTotal ∧
    (result.outcome.Fits → after.outcome = before.outcome.add increase) := by
  intro result after increase created
  have hchanges := Merge.merge_changes interfaceName mixin ⟨target, before.outcome⟩
  have hextends : target.Extends result.target := hchanges.extends
  have hsize : result.outcome.added + target.size = before.outcome.added + result.target.size :=
    hchanges.size
  have hnested : target.nestedTotal ≤ result.target.nestedTotal := hchanges.nestedTotal_le
  have haccounts : result.outcome.counted + target.nestedTotal +
      ((Merge.passedOver interfaceName mixin target).map memberTotal).sum =
        before.outcome.counted + result.target.nestedTotal + mixin.memberTotal :=
    Merge.merge_accounts interfaceName mixin ⟨target, before.outcome⟩
  have hle : result.outcome.counted ≤ before.outcome.counted + mixin.size :=
    Merge.merge_counted_le interfaceName mixin ⟨target, before.outcome⟩
  -- the numbers are those before and the increase that the words show
  have hsince : result.outcome = before.outcome.add increase := by
    have hgrown := hchanges.grows.since
      (Nat.lt_of_le_of_lt hle (Nat.add_lt_add_left hmixin before.outcome.counted))
    rwa [Outcome.counters_outcome] at hgrown
  have hadded : result.outcome.added = before.outcome.added + increase.added :=
    congrArg Outcome.added hsince
  have hcounted : result.outcome.counted = before.outcome.counted + increase.counted := by
    rw [hsince, Outcome.counted_add]
  have hsize_le := hextends.size_le
  have hsteps : Relation.ReflTransGen Counters.Step before after := by
    have hcounting := hchanges.steps
    rwa [Outcome.counters_outcome] at hcounting
  refine ⟨hsteps, by omega, ⟨fun h => ?_, fun h => ?_⟩, by omega, fun h => ?_, by omega,
    fun h => ?_⟩
  · -- nothing has been added, so the word is as it was
    have hnone : result.outcome.added = before.outcome.added := by
      rw [h] at hsize
      omega
    exact (congrArg UInt64.ofNat hnone).trans UInt64.ofNat_toNat
  · -- the word is as it was, so nothing has been added
    have hnone : increase.added = 0 := by
      show (after.added - before.added).toNat = 0
      rw [h, UInt64.sub_self]
      rfl
    exact hextends.eq_of_size_le (by omega)
  · rw [h, List.map_nil, List.sum_nil] at haccounts
    omega
  · rw [← hsince]
    exact h.outcome_counters

/-- A class whose nested class has a constructor. -/
def constructedInside : TypeDef :=
  { bare "a.M" .classType with
    nested := [{ bare "a.M$In" .classType with
      constructors := [⟨⟨[], .void⟩, publicAccess, none⟩] }] }

/-- A nested type and its constructor are added when the word for what is added holds its greatest
number: it passes zero, and the difference is 2 nevertheless. -/
theorem mergeMixin_accounts_pastZero :
    let target := bare "b.T" .classType
    let before : Counters := ⟨.ofNat (UInt64.size - 1), 0, 0⟩
    let result := target.mergeMixin "StringTypes" constructedInside before.outcome
    let increase := (result.outcome.counters.since before).outcome
    constructedInside.size < UInt64.size ∧ result.outcome.counters = ⟨1, 0, 0⟩ ∧
    increase = ⟨2, 0, 0⟩ ∧ (increase.added : Int) = result.target.size - target.size ∧
    increase.counted - (result.target.nestedTotal - target.nestedTotal : Int) =
      constructedInside.memberTotal := by
  have hsize : constructedInside.size < UInt64.size := by decide +kernel
  have hpassed : Merge.passedOver "StringTypes" constructedInside (bare "b.T" .classType) = [] := by
    decide +kernel
  obtain ⟨-, hadded, -, -, hcounted, -⟩ := mergeMixin_accounts "StringTypes" (bare "b.T" .classType)
    constructedInside hsize ⟨.ofNat (UInt64.size - 1), 0, 0⟩
  exact ⟨hsize, by decide +kernel, by decide +kernel, hadded, hcounted hpassed⟩

end TypeDef

end Mixins
