import Mixins.Proofs.Merge.Slots
import Mixins.Proofs.OutermostName
import Mixins.Variant

/-!
# Variants in any order

Which variant survives a union depends on the order of the modules, and so does the order of its
members. Which slots are filled in the end does not: they are those of all variants together.

* `unite?_outermost` — variants of an outermost type are merged as they are.
* `unite?_slots` — the slots of the united type.
-/

namespace Mixins.Variant

open TypeDef Merge

variable {interfaceName name : String}

/-- An outermost type is united by merging the other variants into the first, one after the other.
-/
theorem unite?_outermost (interfaceName : String) (hname : Name.isOutermost name = true)
    (first : Variant) (others : List Variant) : ∃ outcome,
    unite? interfaceName (Name.chain name) first others =
      some ((others.map (·.outer)).foldl (merged interfaceName) first.outer, outcome) := by
  have hmixins : (others.filterMap fun v => v.outer.descendant? []) = others.map (·.outer) := by
    simp [descendant?]
  refine ⟨(first.outer.mergeMixins interfaceName (others.map (·.outer)) .zero).outcome, ?_⟩
  rw [← mergeMixins_target first.outer (others.map (·.outer)) .zero,
    Name.chain_of_isOutermost hname, unite?]
  simp only [mergeAll, hmixins]
  rfl

variable {variants : List Variant} {first : Variant} {others : List Variant}

/-- What a merge makes hold just if it holds of either type holds of the united type just if it
holds of some variant, whichever of them is first. -/
theorem foldl_merged_iff_of_perm {fits : TypeDef → Prop} (holds : TypeDef → Prop)
    (hclosed : ∀ t m, fits t → fits m → fits (t.merged interfaceName m))
    (hstep : ∀ t m, fits t → fits m → (holds (t.merged interfaceName m) ↔ holds t ∨ holds m))
    (hfits : ∀ v ∈ variants, fits v.outer) (horder : (first :: others).Perm variants) :
    holds ((others.map (·.outer)).foldl (merged interfaceName) first.outer) ↔
      ∃ v ∈ variants, holds v.outer := by
  have hmem : ∀ v, v ∈ first :: others ↔ v ∈ variants := fun v => horder.mem_iff
  have hall : ∀ x ∈ first.outer :: others.map (·.outer), fits x := by
    intro x hx
    rw [← List.map_cons, List.mem_map] at hx
    obtain ⟨v, hv, rfl⟩ := hx
    exact hfits v ((hmem v).1 hv)
  rw [foldl_merged_iff hclosed hstep hall, ← List.map_cons]
  simp only [List.mem_map, exists_exists_and_eq_and, hmem]

/-- **Union does not depend on the order of the modules.** At the top, the slots of the united type
are those of the variants together. At every depth they are, unless the type is the interface of
string types: there a field may stand for a nested type, and it is the names of fields and nested
types taken together that are kept. Such a name is kept if the interface has no dollar sign in its
own name, or no variant has the field that is looked for in place of a nested type of that name. -/
theorem unite?_slots (interfaceName : String) (hname : Name.isOutermost name = true)
    (hvariants : ∀ v ∈ variants, v.outer.IsVariantOf name)
    (horder : (first :: others).Perm variants) :
    ∃ united outcome,
      unite? interfaceName (Name.chain name) first others = some (united, outcome) ∧
      (∀ slot, united.Declares [] slot ↔ ∃ v ∈ variants, v.outer.Declares [] slot) ∧
      (Name.simple name ≠ interfaceName → '$' ∉ interfaceName.toList → ∀ path slot,
        united.Declares path slot ↔ ∃ v ∈ variants, v.outer.Declares path slot) ∧
      (Name.simple name = interfaceName → ∀ x,
        ('$' ∉ interfaceName.toList ∨ ∀ v ∈ variants,
          v.outer.hasField (Name.withoutOuter (Name.nested interfaceName x)) = false) →
        (united.DeclaresName x ↔ ∃ v ∈ variants, v.outer.DeclaresName x)) := by
  obtain ⟨outcome, hunited⟩ := unite?_outermost interfaceName hname first others
  have hclosed : ∀ t m : TypeDef, t.IsVariantOf name → m.IsVariantOf name →
      (t.merged interfaceName m).IsVariantOf name := fun _ _ => IsVariantOf.merged
  refine ⟨_, outcome, hunited, fun slot => ?top, fun hne hdollar path slot => ?depth,
    fun heq x hguard => ?names⟩
  case top =>
    exact foldl_merged_iff_of_perm (·.Declares [] slot) hclosed
      (fun t m ht hm => declares_nil_merged ht hm) hvariants horder
  case depth =>
    exact foldl_merged_iff_of_perm (·.Declares path slot) hclosed
      (fun t m ht hm => declares_merged ht hm hdollar hne) hvariants horder
  case names =>
    subst heq
    rcases hguard with hdollar | hnone
    · exact foldl_merged_iff_of_perm (·.DeclaresName x) hclosed
        (fun t m ht hm => declaresName_merged ht hm (.inl hdollar)) hvariants horder
    · -- without that field in any variant, no merge puts it in
      let fits (t : TypeDef) : Prop := t.IsVariantOf name ∧
        t.hasField (Name.withoutOuter (Name.nested (Name.simple name) x)) = false
      have hkept : ∀ t m, fits t → fits m → fits (t.merged (Name.simple name) m) := by
        refine fun t m ht hm => ⟨ht.1.merged hm.1, ?_⟩
        rw [← Bool.not_eq_true, hasField_iff_declares, declares_nil_merged ht.1 hm.1,
          ← hasField_iff_declares, ← hasField_iff_declares, ht.2, hm.2]
        simp
      exact foldl_merged_iff_of_perm (·.DeclaresName x) hkept
        (fun t m ht hm => declaresName_merged ht.1 hm.1 (.inr ht.2))
        (fun v hv => ⟨hvariants v hv, hnone v hv⟩) horder

/-- The second of two modules comes first, and its type receives a nested method. -/
theorem unite?_slots_reversed :
    let first : Variant := ⟨"out", returningItself "p.N" ["x"] [returningItself "p.N$P" ["y"] []]⟩
    let second : Variant := ⟨"lib", returningItself "p.N" ["x"] [returningItself "p.N$P" ["z"] []]⟩
    (∀ v ∈ [first, second], v.outer.IsVariantOf "p.N") ∧
    ∃ united outcome,
      unite? "StringTypes" (Name.chain "p.N") second [first] = some (united, outcome) ∧
      ∀ path slot, united.Declares path slot ↔
        ∃ v ∈ [first, second], v.outer.Declares path slot := by
  intro first second
  have hname : Name.isOutermost "p.N" = true := by decide
  have hvariants : ∀ v ∈ [first, second], v.outer.IsVariantOf "p.N" := by decide
  have hdollar : '$' ∉ "StringTypes".toList := by decide
  have hne : Name.simple "p.N" ≠ "StringTypes" := by decide
  obtain ⟨united, outcome, hunited, -, hslots, -⟩ :=
    unite?_slots "StringTypes" hname hvariants (.swap first second [])
  exact ⟨hvariants, united, outcome, hunited, hslots hne hdollar⟩

/-- An interface of string types with a dollar sign in its name, as two modules have it: in one with
a field `$S$…`, in the other with a nested type that is passed over for that field. Whether the
united type declares the name of the nested type depends on which module comes first. -/
theorem unite?_ordered :
    let first : Variant := ⟨"a", { bare "u.$S" .interfaceType with
      fields := [⟨"S$div", .str, publicAccess, none⟩] }⟩
    let second : Variant := ⟨"b", { bare "u.$S" .interfaceType with
      nested := [bare "u.$S$div" .interfaceType] }⟩
    Name.isOutermost "u.$S" = true ∧ Name.simple "u.$S" = "$S" ∧
    (∀ v ∈ [first, second], v.outer.IsVariantOf "u.$S") ∧ second.outer.DeclaresName "div" ∧
    (∃ united outcome, unite? "$S" (Name.chain "u.$S") first [second] = some (united, outcome) ∧
      ¬ united.DeclaresName "div") ∧
    ∃ united outcome, unite? "$S" (Name.chain "u.$S") second [first] = some (united, outcome) ∧
      united.DeclaresName "div" := by
  intro first second
  have hname : Name.isOutermost "u.$S" = true := by decide
  obtain ⟨outcome, hforward⟩ := unite?_outermost "$S" hname first [second]
  obtain ⟨outcome', hbackward⟩ := unite?_outermost "$S" hname second [first]
  exact ⟨hname, by decide, by decide, by decide, ⟨_, outcome, hforward, by decide +kernel⟩,
    ⟨_, outcome', hbackward, by decide +kernel⟩⟩

end Mixins.Variant
