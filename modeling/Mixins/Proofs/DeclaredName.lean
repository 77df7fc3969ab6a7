import Mixins.Proofs.Descendant
import Mixins.Proofs.OutermostName
import Mixins.Proofs.Rename

/-!
# Declared names

A nested type is put into an outer type under the name it was declared with, and is looked for under
that name. In between stands its full name, composed with a dollar sign and taken apart again at the
last one. A declared name that begins with a dollar sign does not survive this: `$Proxy` in `b.T`
becomes `b.T$$Proxy`, which reads as declared as `Proxy`.

* `Name.inner_nested_inner_iff` — which declared names a composed name gives back.
* `nestedOrInsert_found_iff` — which nested types are found where they have been put.
-/

namespace Mixins

open Mixins.Text

/-! ## Declared names in composed names -/

namespace Name

namespace Chars

theorem inner_of_simple {name : List Char} {c : Char} {rest : List Char}
    (h : simple name = c :: rest) : inner name = (afterLast '$' rest).getD (c :: rest) := by
  unfold inner
  rw [h]

/-- A declared name is a part of the simple name, and no dollar sign is in it but in front. -/
theorem inner_parts (name : List Char) : inner name ⊆ simple name ∧ '$' ∉ (inner name).tail := by
  cases hs : simple name with
  | nil => simp [inner, hs]
  | cons c rest =>
    rw [inner_of_simple hs]
    cases hlast : afterLast '$' rest with
    | none => exact ⟨List.Subset.refl _, not_mem_of_afterLast_eq_none hlast⟩
    | some tail =>
      obtain ⟨start, rfl, hdollar⟩ := afterLast_eq_some hlast
      rw [Option.getD_some]
      exact ⟨fun x hx => by simp [hx], fun hmem => hdollar (List.mem_of_mem_tail hmem)⟩

theorem dot_not_mem_inner (name : List Char) : '.' ∉ inner name :=
  fun h => dot_not_mem_simple name ((inner_parts name).1 h)

theorem dollar_mem_inner_iff (name : List Char) :
    '$' ∈ inner name ↔ (inner name).head? = some '$' := by
  have htail := (inner_parts name).2
  cases hinner : inner name with
  | nil => simp
  | cons c rest =>
    rw [hinner, List.tail_cons] at htail
    simp [htail, eq_comm]

/-- A composed name has a separating dollar sign, so what it was declared with has none. -/
theorem dollar_not_mem_inner_append {outer declared : List Char} (hne : simple outer ≠ [])
    (hdot : '.' ∉ declared) : '$' ∉ inner (outer ++ '$' :: declared) := by
  have hsimple : simple (outer ++ '$' :: declared) = simple outer ++ '$' :: declared :=
    simple_append outer (by simp [hdot])
  cases hs : simple outer with
  | nil => exact absurd hs hne
  | cons c rest =>
    rw [hs, List.cons_append] at hsimple
    rw [inner_of_simple hsimple]
    cases hlast : afterLast '$' (rest ++ '$' :: declared) with
    | none => exact absurd (by simp) (not_mem_of_afterLast_eq_none hlast)
    | some tail =>
      obtain ⟨-, -, hdollar⟩ := afterLast_eq_some hlast
      exact hdollar

end Chars

theorem toList_inner (name : String) : (inner name).toList = Chars.inner name.toList := by
  rw [inner, String.toList_ofList]

/-- **A declared name is given back** by the name it is composed into, unless it begins with a
dollar sign. -/
theorem inner_nested_inner_iff {outer : String} (hne : simple outer ≠ "") (name : String) :
    inner (nested outer (inner name)) = inner name ↔ (inner name).toList.head? ≠ some '$' := by
  have hchars := simple_ne_nil hne
  have hdot := Chars.dot_not_mem_inner name.toList
  rw [← String.toList_inj, toList_inner, toList_nested, toList_inner, ne_eq,
    ← Chars.dollar_mem_inner_iff]
  constructor
  · intro hback
    rw [← hback]
    exact Chars.dollar_not_mem_inner_append hchars hdot
  · exact Chars.inner_append hchars hdot

end Name

/-! ## Nested types under their declared names -/

namespace TypeDef

open Merge (findIdx?_of_split split_or_new)

variable {t : TypeDef} {inner : String}

theorem nestedOrInsert_of_split {before after : List TypeDef} {n : TypeDef}
    (split : t.nested = before ++ n :: after) (first : ∀ x ∈ before, x.innerName ≠ inner)
    (same : n.innerName = inner) (kind : Kind) (access : UInt16) :
    t.nestedOrInsert inner kind access = (t, before.length, false) := by
  rw [nestedOrInsert, split, findIdx?_of_split first same]

theorem nestedOrInsert_of_new (new : ∀ x ∈ t.nested, x.innerName ≠ inner) (kind : Kind)
    (access : UInt16) :
    ∃ n : TypeDef, n.name = Name.nested t.name inner ∧ t.nestedOrInsert inner kind access =
      ({ t with nested := t.nested ++ [n] }, t.nested.length, true) := by
  have hnone : t.nested.findIdx? (·.innerName == inner) = none :=
    List.findIdx?_eq_none_iff.2 fun x hx => by simpa using new x hx
  refine ⟨{ bare (Name.nested t.name inner) kind with access }, rfl, ?_⟩
  rw [nestedOrInsert, hnone]

/-- Whether a nested type is found under the declared name once it has been put there: there is one
already, or its full name gives the declared name back. -/
def FindsAgain (t : TypeDef) (inner : String) : Prop :=
  (∃ n ∈ t.nested, n.innerName = inner) ∨ Name.inner (Name.nested t.name inner) = inner

/-- What has been asked for stands where it was said to stand and is the first of its declared name,
or else nothing in the type has that name. -/
theorem nestedOrInsert_cases (kind : Kind) (access : UInt16) {r : TypeDef × Nat × Bool}
    (hr : t.nestedOrInsert inner kind access = r) :
    t.FindsAgain inner ∧ (∃ before n after, r.1.nested = before ++ n :: after ∧
      (∀ x ∈ before, x.innerName ≠ inner) ∧ n.innerName = inner ∧ r.2.1 = before.length) ∨
    ¬ t.FindsAgain inner ∧ ∀ x ∈ r.1.nested, x.innerName ≠ inner := by
  rcases split_or_new t.nested inner with ⟨before, n, after, split, first, same⟩ | new
  · rw [nestedOrInsert_of_split split first same] at hr
    subst hr
    exact .inl ⟨.inl ⟨n, by simp [split], same⟩, before, n, after, split, first, same, rfl⟩
  · obtain ⟨n, hname, hfresh⟩ := nestedOrInsert_of_new new kind access
    have hinner : n.innerName = Name.inner (Name.nested t.name inner) := by
      rw [innerName, hname]
    rw [hfresh] at hr
    subst hr
    by_cases hback : n.innerName = inner
    · exact .inl ⟨.inr (hinner ▸ hback), t.nested, n, [], rfl, new, hback, rfl⟩
    · refine .inr ⟨?_, List.forall_mem_append.2 ⟨new, List.forall_mem_singleton.2 hback⟩⟩
      rintro (⟨x, hx, hx'⟩ | hback')
      · exact new x hx hx'
      · exact hback (hinner.trans hback')

variable (kind : Kind) (access : UInt16) {r : TypeDef × Nat × Bool}
  (hr : t.nestedOrInsert inner kind access = r)

include hr

/-- The nested type that has been asked for is the one that is found. -/
theorem nestedType?_nestedOrInsert_iff :
    (∃ n, r.1.nested[r.2.1]? = some n ∧ r.1.nestedType? inner = some n) ↔ t.FindsAgain inner := by
  rcases nestedOrInsert_cases kind access hr with
    ⟨hfinds, before, n, after, split, first, same, hat⟩ | ⟨hfinds, new⟩
  · have hget : r.1.nested[r.2.1]? = some n := by simp [split, hat]
    exact iff_of_true ⟨n, hget, nestedType?_of_split split first same⟩ hfinds
  · refine iff_of_false (fun ⟨n, _, hn⟩ => ?_) hfinds
    obtain ⟨hmem, hinner⟩ := nestedType?_some hn
    exact new n hmem hinner

/-- Asking once more creates nothing. -/
theorem nestedOrInsert_again_iff (kind' : Kind) (access' : UInt16) :
    r.1.nestedOrInsert inner kind' access' = (r.1, r.2.1, false) ↔ t.FindsAgain inner := by
  rcases nestedOrInsert_cases kind access hr with
    ⟨hfinds, before, n, after, split, first, same, hat⟩ | ⟨hfinds, new⟩
  · rw [hat]
    exact iff_of_true (nestedOrInsert_of_split split first same kind' access') hfinds
  · obtain ⟨n, -, hfresh⟩ := nestedOrInsert_of_new new kind' access'
    rw [hfresh]
    exact iff_of_false (by simp) hfinds

omit hr

/-- A type of the declared name that has been put in is found, or another one of that name. -/
theorem nestedType?_withNested_iff {x : TypeDef} (hx : x.innerName = inner) :
    ((t.withNested x).nestedType? inner).isSome = true ↔ t.FindsAgain inner := by
  have hname : (x.rename (Name.nested t.name inner)).innerName =
      Name.inner (Name.nested t.name inner) := by rw [innerName, rename_name]
  rw [FindsAgain, ← hname]
  simp [withNested, nestedType?, hx]

/-- **A nested type is found under its declared name** after it has been asked for, so that asking
once more creates nothing, and after a type of that declared name has been put in, exactly if there
was one of that name before or the name does not begin with a dollar sign. -/
theorem nestedOrInsert_found_iff (h : t.simpleName ≠ "") (name : String) (kind : Kind)
    (access : UInt16) :
    let inner := Name.inner name
    let found : Prop := (t.nestedType? inner).isSome ∨ inner.toList.head? ≠ some '$'
    let r := t.nestedOrInsert inner kind access
    ((∃ n, r.1.nested[r.2.1]? = some n ∧ r.1.nestedType? inner = some n) ↔ found) ∧
    (∀ kind' access', r.1.nestedOrInsert inner kind' access' = (r.1, r.2.1, false) ↔ found) ∧
    ∀ x : TypeDef, x.innerName = inner →
      (((t.withNested x).nestedType? inner).isSome ↔ found) := by
  intro inner found r
  have hfound : t.FindsAgain inner ↔ found := by
    refine or_congr ?_ (Name.inner_nested_inner_iff h name)
    simp [nestedType?, List.find?_isSome]
  rw [← hfound]
  exact ⟨nestedType?_nestedOrInsert_iff kind access rfl,
    fun kind' access' => nestedOrInsert_again_iff kind access rfl kind' access',
    fun x hx => nestedType?_withNested_iff hx⟩

/-- A nested type declared as `$Proxy` is created anew each time it is asked for, and is lost when
it is put in. One declared as `I` is not. -/
theorem nestedOrInsert_found_iff_proxy :
    let t : TypeDef := bare "b.T" .classType
    let r := t.nestedOrInsert (Name.inner "a.$Proxy") .classType publicAccess
    (t.simpleName ≠ "" ∧ Name.inner "a.$Proxy" = "$Proxy" ∧ Name.inner "a.O$I" = "I") ∧
    r.1.nestedOrInsert "$Proxy" .classType publicAccess ≠ (r.1, r.2.1, false) ∧
    ¬ ((t.withNested (bare "a.$Proxy" .classType)).nestedType? "$Proxy").isSome ∧
    ((t.withNested (bare "a.O$I" .enumType)).nestedType? "I").isSome := by
  intro t r
  have ht : t.simpleName ≠ "" := by decide
  have hproxy : Name.inner "a.$Proxy" = "$Proxy" := by decide
  have hi : Name.inner "a.O$I" = "I" := by decide
  obtain ⟨-, hagain, hput⟩ := nestedOrInsert_found_iff ht "a.$Proxy" .classType publicAccess
  obtain ⟨-, -, hputI⟩ := nestedOrInsert_found_iff ht "a.O$I" .classType publicAccess
  simp only [hproxy, hi] at hagain hput hputI
  refine ⟨⟨ht, hproxy, hi⟩, ?_, ?_, ?_⟩
  · intro hsame
    exact absurd ((hagain _ _).1 hsame) (by decide)
  · intro hfound
    exact absurd ((hput (bare "a.$Proxy" .classType) hproxy).1 hfound) (by decide)
  · exact (hputI (bare "a.O$I" .enumType) hi).2 (by decide)

end TypeDef

end Mixins
