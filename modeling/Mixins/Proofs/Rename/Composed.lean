import Mathlib.Data.List.Find
import Mixins.Proofs.Rename

/-!
# Renaming acts on composed names

Renaming changes the names in a type and nothing else, and of the names in a type whose nested types
are named after the types around them it leaves nothing but the declared names. So only the last
name counts, and the types nested in a renamed type are found on the same paths as before, each
under the name that the path composes.

* `withoutNames_rename` — all but the names stays, whatever they are.
* `rename_name_self` — the name that a type has already changes nothing.
* `ComposedNames.rename_rename` — of two names only the second counts.
* `ComposedNames.descendant?_rename` — a path leads to the same type, renamed.
* `rename_homomorphic` — these laws together.
-/

namespace Mixins.TypeDef

mutual
/-- The type with all names of types blank, its own and those of the types nested in it: what they
declare, and how they are nested. -/
def withoutNames : TypeDef → TypeDef
  | ⟨declaration, nested⟩ => ⟨{ declaration with name := "" }, withoutNamesOfAll nested⟩
def withoutNamesOfAll : List TypeDef → List TypeDef
  | [] => []
  | t :: ts => t.withoutNames :: withoutNamesOfAll ts
end

theorem withoutNamesOfAll_eq_map (ts : List TypeDef) :
    withoutNamesOfAll ts = ts.map withoutNames := by
  induction ts with
  | nil => rfl
  | cons t ts ih => rw [withoutNamesOfAll, ih, List.map_cons]

theorem withoutNames_eq (t : TypeDef) :
    t.withoutNames = ⟨{ t.toDeclaration with name := "" }, t.nested.map withoutNames⟩ := by
  obtain ⟨d, nested⟩ := t
  rw [withoutNames, withoutNamesOfAll_eq_map]

/-- **All but the names** stays as it is in a renamed type. -/
theorem withoutNames_rename (t : TypeDef) (name : String) :
    (t.rename name).withoutNames = t.withoutNames := by
  induction t using nestedInduction generalizing name with
  | step t ih =>
    have hnested : ∀ n ∈ t.nested, (following t.name name n).withoutNames = n.withoutNames := by
      intro n hn
      unfold following
      split
      · exact ih n hn _
      · rfl
    rw [withoutNames_eq, withoutNames_eq t, rename_eq, List.map_map]
    exact congrArg _ (List.map_congr_left hnested)

/-- The name that a type has already changes nothing. -/
theorem rename_name_self (t : TypeDef) : t.rename t.name = t := by
  induction t using nestedInduction with
  | step t ih =>
    have hnested : ∀ n ∈ t.nested, following t.name t.name n = n := by
      intro n hn
      unfold following
      split
      · rename_i name hname
        have hself : name = n.name := by
          have hrefl := Name.rebind_refl n.name t.name
          rwa [Name.rebind, hname, Option.getD_some] at hrefl
        rw [hself, ih n hn]
      · rfl
    rw [rename_eq, List.map_congr_left hnested, List.map_id']
    cases t
    rfl

variable {t : TypeDef}

/-- A type has composed names as soon as its root has and its branches have. -/
theorem ComposedNames.ofBranches (hne : t.simpleName ≠ "")
    (hroot : ∀ n ∈ t.nested, Name.IsNestedIn t.name n.name)
    (hbranch : ∀ n ∈ t.nested, n.ComposedNames) : t.ComposedNames := by
  refine ⟨hne, fun x hx => ?_⟩
  rcases mem_types.1 hx with rfl | ⟨n, hn, hx⟩
  · exact hroot
  · exact (hbranch n hn).composed x hx

theorem ComposedNames.rename (h : t.ComposedNames) {name : String} (hname : Name.simple name ≠ "") :
    (t.rename name).ComposedNames := by
  induction t using nestedInduction generalizing name with
  | step t ih =>
    have hnested := h.rename_nested name
    refine .ofBranches ?_ ?_ ?_
    · rw [simpleName, rename_name]
      exact hname
    · rw [hnested, List.forall_mem_map]
      intro n hn
      rw [rename_name, rename_name]
      exact ⟨n.innerName, (h.innerName hn).1, rfl⟩
    · rw [hnested, List.forall_mem_map]
      exact fun n hn => ih n hn (h.branch hn) (Name.simple_nested_ne name (h.innerName hn).1.2.1)

/-- A renamed type, its nested types named after it. -/
theorem ComposedNames.rename_composed (h : t.ComposedNames) (name : String) :
    t.rename name = ⟨{ t.toDeclaration with name },
      t.nested.map fun n => n.rename (Name.nested name n.innerName)⟩ := by
  rw [← h.rename_nested name, rename_eq]

/-- A renamed nested type keeps the name it was declared with. -/
theorem ComposedNames.innerName_rename (h : t.ComposedNames) {n : TypeDef} (hn : n ∈ t.nested)
    {name : String} (hname : Name.simple name ≠ "") :
    (n.rename (Name.nested name n.innerName)).innerName = n.innerName := by
  rw [TypeDef.innerName, rename_name]
  exact Name.inner_nested hname (h.innerName hn).1

/-- **Of two names** only the second counts. -/
theorem ComposedNames.rename_rename (h : t.ComposedNames) {a : String} (ha : Name.simple a ≠ "")
    (b : String) : (t.rename a).rename b = t.rename b := by
  induction t using nestedInduction generalizing a b with
  | step t ih =>
    rw [(h.rename ha).rename_composed b, h.rename_composed b, h.rename_composed a, List.map_map]
    refine congrArg _ (List.map_congr_left fun n hn => ?_)
    have hne := Name.simple_nested_ne a (h.innerName hn).1.2.1
    rw [Function.comp_apply, h.innerName_rename hn ha, ih n hn (h.branch hn) hne]

theorem ComposedNames.nestedType?_rename (h : t.ComposedNames) {name : String}
    (hname : Name.simple name ≠ "") (inner : String) :
    (t.rename name).nestedType? inner =
      (t.nestedType? inner).map fun n => n.rename (Name.nested name n.innerName) := by
  have hsame : ∀ n ∈ t.nested,
      ((n.rename (Name.nested name n.innerName)).innerName == inner) = (n.innerName == inner) := by
    intro n hn
    rw [h.innerName_rename hn hname]
  rw [nestedType?, h.rename_nested, List.find?_map, nestedType?]
  exact congrArg _ (List.find?_congr hsame)

/-- **A path leads to the same type**, renamed as the path says. -/
theorem ComposedNames.descendant?_rename (h : t.ComposedNames) {name : String}
    (hname : Name.simple name ≠ "") (chain : List String) :
    (t.rename name).descendant? chain =
      (t.descendant? chain).map (·.rename (Name.below name chain)) := by
  induction chain generalizing t name with
  | nil => rfl
  | cons inner chain ih =>
    rw [descendant?, descendant?, h.nestedType?_rename hname]
    cases hfind : t.nestedType? inner with
    | none => rfl
    | some n =>
      obtain ⟨hn, rfl⟩ := nestedType?_some hfind
      have hsimple := Name.simple_nested_ne name (h.innerName hn).1.2.1
      rw [Option.map_some, Option.bind_some, Option.bind_some, ih (h.branch hn) hsimple]
      rfl

/-- **Renaming is a homomorphism** on types whose nested types are named after the types around
them. The renamed type has the new name and is named in the same way. Of several names only the last
one counts, and the name that the type has already counts for nothing. Members and markers are the
same at every depth, and so is what is nested where. A path leads to the type that it led to, with
the name that the path composes. -/
theorem rename_homomorphic (h : t.ComposedNames) {a : String} (ha : Name.simple a ≠ "")
    (b : String) :
    ((t.rename a).name = a ∧ (t.rename a).ComposedNames) ∧
    (t.rename a).rename b = t.rename b ∧ t.rename t.name = t ∧
    (t.rename a).withoutNames = t.withoutNames ∧
    ∀ chain, (t.rename a).descendant? chain =
      (t.descendant? chain).map (·.rename (Name.below a chain)) :=
  ⟨⟨t.rename_name a, h.rename ha⟩, h.rename_rename ha b, t.rename_name_self,
    t.withoutNames_rename a, h.descendant?_rename ha⟩

/-- A type whose simple name begins with a dollar sign, with two nested types of one name, goes by a
name that is nothing but a dollar sign. -/
theorem rename_homomorphic_dollar :
    let i : TypeDef := { bare "a.$P$I" .classType with nested := [bare "a.$P$I$J" .enumType] }
    let t : TypeDef := { bare "a.$P" .classType with nested := [i, bare "a.$P$I" .recordType] }
    (t.ComposedNames ∧ Name.simple "$" ≠ "") ∧
    (t.rename "$").ComposedNames ∧ (t.rename "$").rename "c.Q" = t.rename "c.Q" ∧
    (t.rename "$").descendant? ["I", "J"] = some (bare "$$I$J" .enumType) := by
  intro i t
  have ht : t.ComposedNames := by decide
  have hname : Name.simple "$" ≠ "" := by decide
  obtain ⟨⟨-, hcomposed⟩, htwice, -, -, hpath⟩ := rename_homomorphic ht hname "c.Q"
  refine ⟨⟨ht, hname⟩, hcomposed, htwice, ?_⟩
  rw [hpath]
  decide

end Mixins.TypeDef
