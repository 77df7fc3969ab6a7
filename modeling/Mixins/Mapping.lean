/-!
# Mappings

The mixins of each target, in the order in which targets and mixins were first met.

Principal statements: `targets_ofPairs` — no target is listed twice.
-/

namespace Mixins

abbrev Mapping := List (String × List String)

namespace Mapping

/-- The mapping with one more mixin for a target. -/
def insert (target mixin : String) : Mapping → Mapping
  | [] => [(target, [mixin])]
  | (key, mixins) :: rest =>
    if key = target then (key, mixins ++ [mixin]) :: rest
    else (key, mixins) :: insert target mixin rest

/-- Collects pairs of a target and a mixin. -/
def ofPairs (pairs : List (String × String)) : Mapping :=
  pairs.foldl (fun mapping (target, mixin) => mapping.insert target mixin) []

def targets (mapping : Mapping) : List String := mapping.map (·.1)

theorem mem_targets_insert {target mixin key : String} {mapping : Mapping}
    (h : key ∈ (mapping.insert target mixin).targets) : key = target ∨ key ∈ mapping.targets := by
  induction mapping with
  | nil => simpa [insert, targets] using h
  | cons e rest ih =>
    simp only [insert] at h
    split at h
    · exact .inr h
    · simp only [targets, List.map_cons, List.mem_cons] at h ⊢
      rcases h with h | h
      · exact .inr (.inl h)
      · rcases ih h with h | h
        · exact .inl h
        · exact .inr (.inr h)

theorem nodup_targets_insert (target mixin : String) {mapping : Mapping}
    (h : mapping.targets.Nodup) : (mapping.insert target mixin).targets.Nodup := by
  induction mapping with
  | nil => simp [insert, targets]
  | cons e rest ih =>
    obtain ⟨hnot, hrest⟩ := List.nodup_cons.1 h
    simp only [insert]
    split
    · exact h
    · rename_i hne
      refine List.nodup_cons.2 ⟨fun hmem => ?_, ih hrest⟩
      rcases mem_targets_insert hmem with heq | hmem
      · exact hne heq
      · exact hnot hmem

theorem targets_ofPairs (pairs : List (String × String)) : (ofPairs pairs).targets.Nodup := by
  suffices ∀ mapping : Mapping, mapping.targets.Nodup →
      (pairs.foldl (fun mapping (target, mixin) => mapping.insert target mixin)
        mapping).targets.Nodup
    from this [] .nil
  induction pairs with
  | nil => exact fun _ h => h
  | cons pair rest ih => exact fun _ h => ih _ (nodup_targets_insert _ _ h)

end Mapping

end Mixins
