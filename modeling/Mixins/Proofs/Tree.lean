import Mathlib.Algebra.Ring.Nat
import Mixins.TypeDef

/-!
# Type definitions as trees

A type definition is a tree: the types nested in it are its branches. What is said about a type "at
every depth" is said about the list `types` of all types of the tree.

* `nestedInduction` — what passes from the nested types of a type to the type itself holds of every
  type.
* `mem_types` — the types of a tree are its root and the types of its branches.
* `atEveryDepth_iff` — what holds at every depth holds at the root and in the branches.
* `sumOver_eq` — a count over the tree is the count at its root and the counts over its branches.
-/

namespace Mixins.TypeDef

mutual
theorem nestedInduction {motive : TypeDef → Prop}
    (step : ∀ t : TypeDef, (∀ n ∈ t.nested, motive n) → motive t) : ∀ t, motive t
  | ⟨declaration, nested⟩ => step ⟨declaration, nested⟩ (nestedInduction_all step nested)
theorem nestedInduction_all {motive : TypeDef → Prop}
    (step : ∀ t : TypeDef, (∀ n ∈ t.nested, motive n) → motive t) :
    ∀ ts : List TypeDef, ∀ n ∈ ts, motive n
  | [], _, h => nomatch h
  | t :: ts, n, h => by
    have ht := nestedInduction step t
    have hts := nestedInduction_all step ts
    rcases List.mem_cons.1 h with rfl | h
    · exact ht
    · exact hts n h
end

mutual
/-- The type and the types nested in it, at every depth. -/
def types : TypeDef → List TypeDef
  | ⟨declaration, nested⟩ => ⟨declaration, nested⟩ :: typesOfAll nested
def typesOfAll : List TypeDef → List TypeDef
  | [] => []
  | t :: ts => t.types ++ typesOfAll ts
end

theorem typesOfAll_eq_flatMap (ts : List TypeDef) : typesOfAll ts = ts.flatMap types := by
  induction ts with
  | nil => rfl
  | cons t ts ih => rw [typesOfAll, ih, List.flatMap_cons]

theorem types_eq (t : TypeDef) : t.types = t :: t.nested.flatMap types := by
  obtain ⟨declaration, nested⟩ := t
  rw [types, typesOfAll_eq_flatMap]

theorem mem_types {x t : TypeDef} : x ∈ t.types ↔ x = t ∨ ∃ n ∈ t.nested, x ∈ n.types := by
  rw [types_eq, List.mem_cons, List.mem_flatMap]

theorem self_mem_types (t : TypeDef) : t ∈ t.types := mem_types.2 (.inl rfl)

theorem types_subset {t n : TypeDef} (h : n ∈ t.nested) : n.types ⊆ t.types :=
  fun _ hx => mem_types.2 (.inr ⟨n, h, hx⟩)

theorem nestedType?_some {t n : TypeDef} {inner : String} (h : t.nestedType? inner = some n) :
    n ∈ t.nested ∧ n.innerName = inner :=
  ⟨List.mem_of_find?_eq_some h, by simpa using List.find?_some h⟩

theorem descendant?_mem_types {path : List String} {t x : TypeDef}
    (h : t.descendant? path = some x) : x ∈ t.types := by
  induction path generalizing t with
  | nil =>
    rw [descendant?, Option.some.injEq] at h
    exact h ▸ self_mem_types t
  | cons inner path ih =>
    rw [descendant?, Option.bind_eq_some_iff] at h
    obtain ⟨n, hn, hx⟩ := h
    exact types_subset (nestedType?_some hn).1 (ih hx)

/-- Whether what each type of the tree declares by itself has the property. -/
def AtEveryDepth (P : Declaration → Prop) (t : TypeDef) : Prop := ∀ x ∈ t.types, P x.toDeclaration

instance (P : Declaration → Prop) [DecidablePred P] (t : TypeDef) : Decidable (t.AtEveryDepth P) :=
  inferInstanceAs (Decidable (∀ x ∈ t.types, P x.toDeclaration))

theorem atEveryDepth_iff {P : Declaration → Prop} {t : TypeDef} :
    t.AtEveryDepth P ↔ P t.toDeclaration ∧ ∀ n ∈ t.nested, n.AtEveryDepth P := by
  constructor
  · exact fun h => ⟨h t t.self_mem_types, fun n hn x hx => h x (types_subset hn hx)⟩
  · rintro ⟨hroot, hbranch⟩ x hx
    rcases mem_types.1 hx with rfl | ⟨n, hn, hx⟩
    · exact hroot
    · exact hbranch n hn x hx

/-! ## Counting over a tree -/

/-- The sum of `count` over the type and the types nested in it, at every depth. -/
def sumOver (count : TypeDef → Nat) (t : TypeDef) : Nat := (t.types.map count).sum

theorem sum_map_flatMap_types (count : TypeDef → Nat) (ts : List TypeDef) :
    ((ts.flatMap types).map count).sum = (ts.map (sumOver count)).sum := by
  induction ts with
  | nil => rfl
  | cons t ts ih => simp [sumOver, ih]

theorem sumOver_eq (count : TypeDef → Nat) (t : TypeDef) :
    t.sumOver count = count t + (t.nested.map (sumOver count)).sum := by
  rw [sumOver, types_eq, List.map_cons, List.sum_cons, sum_map_flatMap_types]

/-- The methods, fields and constructors at every depth. -/
def memberTotal (t : TypeDef) : Nat := t.sumOver memberCount

/-- The nested types at every depth. -/
def nestedTotal (t : TypeDef) : Nat := t.sumOver fun x => x.nested.length

/-- The methods, fields, constructors and nested types at every depth. -/
def size (t : TypeDef) : Nat := t.memberTotal + t.nestedTotal

theorem memberTotal_eq (t : TypeDef) :
    t.memberTotal = t.memberCount + (t.nested.map memberTotal).sum := sumOver_eq memberCount t

theorem nestedTotal_eq (t : TypeDef) :
    t.nestedTotal = t.nested.length + (t.nested.map nestedTotal).sum := sumOver_eq _ t

theorem sum_map_size (ts : List TypeDef) :
    (ts.map size).sum = (ts.map memberTotal).sum + (ts.map nestedTotal).sum := by
  induction ts with
  | nil => rfl
  | cons t ts ih =>
    simp only [List.map_cons, List.sum_cons, ih, size]
    omega

theorem size_eq (t : TypeDef) :
    t.size = t.memberCount + t.nested.length + (t.nested.map size).sum := by
  rw [size, memberTotal_eq, nestedTotal_eq, sum_map_size]
  omega

end Mixins.TypeDef
