import Mixins.Name

/-!
# Names of nested types

How a name that is composed from the name of an outer type and a declared name is taken apart
again, and which names lie below which.

* `simple_nested`, `inner_nested` — a composed name keeps its package, and the segment it was
  composed with is the name it was declared with.
* `within_or_within` — of two names above the same name one is above the other.
* `rebind_of_within`, `rebind_of_not_within` — rebinding moves the names below the old owner below
  the new one and leaves the others alone.
-/

namespace Mixins.Name

open Mixins.Text

namespace Chars

theorem afterLast_append_of_not_mem {mark : Char} (s : List Char) {tail : List Char}
    (h : mark ∉ tail) : afterLast mark (s ++ tail) = (afterLast mark s).map (· ++ tail) := by
  induction s with
  | nil => simp [afterLast, afterLast_eq_none h]
  | cons c s ih =>
    rw [List.cons_append, afterLast, afterLast, ih]
    cases afterLast mark s with
    | some rest => rfl
    | none => by_cases hc : c = mark <;> simp [hc]

theorem afterFirst_append {mark : Char} {s : List Char} (h : mark ∉ s) (tail : List Char) :
    afterFirst mark (s ++ mark :: tail) = some tail := by
  induction s with
  | nil => simp [afterFirst]
  | cons c s ih =>
    rw [List.mem_cons, not_or] at h
    rw [List.cons_append, afterFirst, if_neg (Ne.symm h.1), ih h.2]

theorem simple_append (s : List Char) {tail : List Char} (h : '.' ∉ tail) :
    simple (s ++ tail) = simple s ++ tail := by
  unfold simple
  rw [afterLast_append_of_not_mem s h]
  cases afterLast '.' s <;> rfl

theorem inner_append {outer segment : List Char} (hne : simple outer ≠ []) (hdot : '.' ∉ segment)
    (hdollar : '$' ∉ segment) : inner (outer ++ '$' :: segment) = segment := by
  have htail : '.' ∉ '$' :: segment := by simp [hdot]
  unfold inner
  rw [simple_append outer htail]
  cases hs : simple outer with
  | nil => exact absurd hs hne
  | cons c rest =>
    simp only [List.cons_append]
    rw [afterLast_append rest hdollar, Option.getD_some]

end Chars

/-! ## Segments -/

/-- What may stand between two separating dollar signs. -/
def IsSegment (segment : String) : Prop :=
  segment ≠ "" ∧ '.' ∉ segment.toList ∧ '$' ∉ segment.toList

instance (segment : String) : Decidable (IsSegment segment) :=
  inferInstanceAs (Decidable (_ ∧ _ ∧ _))

theorem toList_nested (outer inner : String) :
    (nested outer inner).toList = outer.toList ++ '$' :: inner.toList := by
  simp [nested]

theorem toList_simple (name : String) : (simple name).toList = Chars.simple name.toList := by
  simp [simple]

theorem simple_ne_nil {name : String} (h : simple name ≠ "") : Chars.simple name.toList ≠ [] := by
  rw [← toList_simple]
  simpa using h

theorem nested_right_injective {outer s t : String} (h : nested outer s = nested outer t) :
    s = t := by
  rw [← String.toList_inj, toList_nested, toList_nested] at h
  exact String.toList_inj.1 (List.cons.inj (List.append_cancel_left h)).2

theorem simple_nested (outer : String) {segment : String} (h : '.' ∉ segment.toList) :
    simple (nested outer segment) = nested (simple outer) segment := by
  rw [← String.toList_inj, toList_simple, toList_nested, toList_nested, toList_simple]
  exact Chars.simple_append _ (by simp [h])

theorem inner_nested {outer segment : String} (hne : simple outer ≠ "")
    (h : IsSegment segment) : inner (nested outer segment) = segment := by
  rw [inner, toList_nested, Chars.inner_append (simple_ne_nil hne) h.2.1 h.2.2,
    String.ofList_toList]

theorem dollar_mem_simple_nested (outer : String) {segment : String}
    (h : '.' ∉ segment.toList) : '$' ∈ (simple (nested outer segment)).toList := by
  rw [simple_nested outer h, toList_nested]
  simp

theorem withoutOuter_nested {outer inner : String} (h : '$' ∉ outer.toList) :
    withoutOuter (nested outer inner) = inner := by
  rw [withoutOuter, toList_nested, Chars.afterFirst_append h, Option.map_some, Option.getD_some,
    String.ofList_toList]

theorem simple_nested_ne (outer : String) {segment : String} (h : '.' ∉ segment.toList) :
    simple (nested outer segment) ≠ "" := by
  intro hempty
  have := dollar_mem_simple_nested outer h
  rw [hempty] at this
  simp at this

/-- Whether the name is composed from `outer` and a segment. -/
def IsNestedIn (outer name : String) : Prop :=
  ∃ segment, IsSegment segment ∧ name = nested outer segment

instance (outer name : String) : Decidable (IsNestedIn outer name) :=
  match h : dropWord (outer.toList ++ ['$']) name.toList with
  | some segment =>
    have hname : name = nested outer (String.ofList segment) := by
      rw [← String.toList_inj, toList_nested, String.toList_ofList, dropWord_eq_some_iff.1 h]
      simp
    decidable_of_iff (IsSegment (String.ofList segment))
      ⟨fun hs => ⟨_, hs, hname⟩, fun ⟨s, hs, hs'⟩ =>
        nested_right_injective (hname.symm.trans hs') ▸ hs⟩
  | none => isFalse fun ⟨s, _, hs⟩ => by
    have hsome : dropWord (outer.toList ++ ['$']) name.toList = some s.toList :=
      dropWord_eq_some_iff.2 (by rw [hs, toList_nested]; simp)
    rw [h] at hsome
    cases hsome

/-- The name of the type reached from the type `base` through the declared names in `chain`. -/
def below (base : String) (chain : List String) : String := chain.foldl nested base

/-! ## Names below a name -/

/-- Whether `name` is `owner` or the name of a type nested in it. -/
def Within (owner name : String) : Prop := name = owner ∨ ∃ rest, name = nested owner rest

theorem within_iff {owner name : String} :
    Within owner name ↔
      ∃ rest, name.toList = owner.toList ++ rest ∧ (rest = [] ∨ rest.head? = some '$') := by
  constructor
  · rintro (rfl | ⟨rest, rfl⟩)
    · exact ⟨[], by simp, .inl rfl⟩
    · exact ⟨'$' :: rest.toList, toList_nested owner rest, .inr rfl⟩
  · rintro ⟨rest, hname, rfl | hrest⟩
    · exact .inl (String.toList_inj.1 (by simpa using hname))
    · obtain ⟨tail, rfl⟩ := List.head?_eq_some_iff.1 hrest
      refine .inr ⟨String.ofList tail, ?_⟩
      rw [← String.toList_inj, toList_nested, String.toList_ofList, hname]

theorem within_self (name : String) : Within name name := .inl rfl

theorem within_nested (owner inner : String) : Within owner (nested owner inner) :=
  .inr ⟨inner, rfl⟩

theorem Within.trans {a b c : String} (hab : Within a b) (hbc : Within b c) : Within a c := by
  rcases hab with rfl | ⟨s, rfl⟩
  · exact hbc
  · rcases hbc with rfl | ⟨t, rfl⟩
    · exact within_nested a s
    · refine .inr ⟨nested s t, ?_⟩
      rw [← String.toList_inj]
      simp [toList_nested]

theorem within_below (base : String) (chain : List String) : Within base (below base chain) := by
  induction chain generalizing base with
  | nil => exact within_self base
  | cons s chain ih => exact (within_nested base s).trans (ih (nested base s))

/-- Two names that have a name below them in common lie on one line. -/
theorem within_or_within {a b name : String} (ha : Within a name) (hb : Within b name) :
    Within a b ∨ Within b a := by
  obtain ⟨s, hs, hs'⟩ := within_iff.1 ha
  obtain ⟨t, ht, ht'⟩ := within_iff.1 hb
  have happend : a.toList ++ s = b.toList ++ t := hs.symm.trans ht
  rcases List.append_eq_append_iff.1 happend with ⟨u, hb', hst⟩ | ⟨u, ha', hts⟩
  · refine .inl (within_iff.2 ⟨u, hb', ?_⟩)
    cases u with
    | nil => exact .inl rfl
    | cons c u => exact .inr (by simpa [hst] using hs')
  · refine .inr (within_iff.2 ⟨u, ha', ?_⟩)
    cases u with
    | nil => exact .inl rfl
    | cons c u => exact .inr (by simpa [hts] using ht')

/-! ## Rebinding -/

theorem rebase_of_not_within {name source : String} (destination : String)
    (h : ¬ Within source name) : rebase name source destination = none := by
  have hne : name.toList ≠ source.toList := fun heq => h (.inl (String.toList_inj.1 heq))
  have hnested : ∀ rest, name.toList ≠ source.toList ++ '$' :: rest := by
    intro rest heq
    exact h (within_iff.2 ⟨'$' :: rest, heq, .inr rfl⟩)
  rw [rebase, Chars.rebase_eq_none _ hne hnested, Option.map_none]

theorem rebase_isSome_iff (name source destination : String) :
    (rebase name source destination).isSome ↔ Within source name := by
  constructor
  · intro h
    by_cases hname : Within source name
    · exact hname
    · rw [rebase_of_not_within destination hname] at h
      cases h
  · rintro (rfl | ⟨rest, rfl⟩)
    · rw [rebase_self, Option.isSome_some]
    · rw [rebase_nested, Option.isSome_some]

instance (owner name : String) : Decidable (Within owner name) :=
  decidable_of_iff _ (rebase_isSome_iff name owner "")

theorem rebind_of_not_within {name source : String} (destination : String)
    (h : ¬ Within source name) : rebind name source destination = name := by
  rw [rebind, rebase_of_not_within destination h, Option.getD_none]

theorem rebind_self (source destination : String) :
    rebind source source destination = destination := by
  rw [rebind, rebase_self, Option.getD_some]

theorem rebind_nested (source destination inner : String) :
    rebind (nested source inner) source destination = nested destination inner := by
  rw [rebind, rebase_nested, Option.getD_some]

/-- Rebinding from a name to itself does nothing. -/
theorem rebind_refl (name source : String) : rebind name source source = name := by
  by_cases h : Within source name
  · rcases h with rfl | ⟨rest, rfl⟩
    · exact rebind_self name name
    · exact rebind_nested source source rest
  · exact rebind_of_not_within source h

theorem rebind_of_within {name source : String} (destination : String) (h : Within source name) :
    Within destination (rebind name source destination) := by
  rcases h with rfl | ⟨rest, rfl⟩
  · rw [rebind_self]
    exact within_self destination
  · rw [rebind_nested]
    exact within_nested destination rest

end Mixins.Name
