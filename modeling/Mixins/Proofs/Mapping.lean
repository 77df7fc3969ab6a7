import Mathlib.Data.List.Induction
import Mixins.Mapping

/-!
# Mappings as groups

A mapping is built pair by pair. What comes of it is the list of pairs, grouped by target: the
targets in the order in which they were first met, and under each of them its mixins as they were
met, as often as they were.

* `targets_insert`, `mixins_insert` — what one more pair does.
* `targets_ofPairs_eq`, `mixins_ofPairs` — what all pairs come to.
* `ofPairs_eq` — the mapping as groups.
-/

namespace Mixins.Mapping

/-- The mixins that are listed for a target. -/
def mixins (mapping : Mapping) (target : String) : List String :=
  (mapping.lookup target).getD []

/-- A target that is new comes last. -/
theorem targets_insert (target mixin : String) (mapping : Mapping) :
    (mapping.insert target mixin).targets =
      mapping.targets ++ if target ∈ mapping.targets then [] else [target] := by
  induction mapping with
  | nil => simp [insert, targets]
  | cons e rest ih =>
    obtain ⟨key, listed⟩ := e
    simp only [targets] at ih
    by_cases hkey : key = target
    · simp [insert, targets, hkey]
    · by_cases hrest : target ∈ rest.map (·.1) <;>
        simp [insert, targets, hkey, Ne.symm hkey, ih, hrest]

/-- A mixin comes last under its target. -/
theorem mixins_insert (target mixin key : String) (mapping : Mapping) :
    (mapping.insert target mixin).mixins key =
      mapping.mixins key ++ if target = key then [mixin] else [] := by
  induction mapping with
  | nil =>
    by_cases hkey : target = key
    · simp [insert, mixins, hkey]
    · simp [insert, mixins, List.lookup_cons, hkey, beq_false_of_ne (Ne.symm hkey)]
  | cons e rest ih =>
    obtain ⟨first, listed⟩ := e
    simp only [mixins] at ih
    by_cases hfirst : first = target
    · subst hfirst
      by_cases hkey : first = key
      · simp [insert, mixins, hkey]
      · simp [insert, mixins, List.lookup_cons, hkey, beq_false_of_ne (Ne.symm hkey)]
    · by_cases hkey : key = first
      · simp [insert, mixins, hfirst, hkey, Ne.symm hfirst]
      · simp [insert, mixins, hfirst, List.lookup_cons, beq_false_of_ne hkey, ih]

theorem ofPairs_concat (pairs : List (String × String)) (pair : String × String) :
    ofPairs (pairs ++ [pair]) = (ofPairs pairs).insert pair.1 pair.2 := by
  simp [ofPairs]

/-- The targets are in the order in which they were first met. -/
theorem targets_ofPairs_eq (pairs : List (String × String)) :
    (ofPairs pairs).targets = (pairs.map (·.1)).eraseDups := by
  induction pairs using List.reverseRecOn with
  | nil => rfl
  | append_singleton pairs pair ih =>
    rw [ofPairs_concat, targets_insert, ih, List.map_append, List.eraseDups_append]
    congr 1
    by_cases hmet : pair.1 ∈ pairs.map (·.1)
    · simp [hmet, List.removeAll]
    · simp [hmet, List.removeAll, List.eraseDups_cons]

/-- The mixins of a target are those that it was met with. -/
theorem mixins_ofPairs (pairs : List (String × String)) (target : String) :
    (ofPairs pairs).mixins target = (pairs.filter (·.1 = target)).map (·.2) := by
  induction pairs using List.reverseRecOn with
  | nil => rfl
  | append_singleton pairs pair ih =>
    rw [ofPairs_concat, mixins_insert, ih, List.filter_append, List.map_append]
    congr 1
    by_cases htarget : pair.1 = target <;> simp [htarget]

/-- A mapping that lists no target twice is told by its targets and the mixins of each. -/
theorem eq_map_targets {mapping : Mapping} (h : mapping.targets.Nodup) :
    mapping = mapping.targets.map fun target => (target, mapping.mixins target) := by
  induction mapping with
  | nil => rfl
  | cons e rest ih =>
    obtain ⟨key, listed⟩ := e
    obtain ⟨hnot, hrest⟩ := List.nodup_cons.1 h
    have hothers : ∀ target ∈ targets rest,
        mixins ((key, listed) :: rest) target = mixins rest target := by
      intro target htarget
      have hne : target ≠ key := fun heq => hnot (heq ▸ htarget)
      simp [mixins, List.lookup_cons, beq_false_of_ne hne]
    change (key, listed) :: rest =
      (key, mixins ((key, listed) :: rest) key) :: (targets rest).map _
    rw [List.map_congr_left fun target htarget => by rw [hothers target htarget], ← ih hrest]
    simp [mixins]

/-- **A mapping is the pairs in groups.** -/
theorem ofPairs_eq (pairs : List (String × String)) :
    ofPairs pairs = (pairs.map (·.1)).eraseDups.map fun target =>
      (target, (pairs.filter (·.1 = target)).map (·.2)) := by
  have hgroups := eq_map_targets (targets_ofPairs pairs)
  simpa only [targets_ofPairs_eq, mixins_ofPairs] using hgroups

end Mixins.Mapping
