import Mixins.Proofs.WellNamed
import Mixins.TypeDef.Edit

/-!
# Renamed types

A type takes the types nested in it along when it is renamed, as far as their names follow its own.
In a type whose nested types are named after the types around them all of them do, and are named
after the types around them again. Nothing but names changes.

* `rename_nested` — the nested types of a renamed type.
* `AtEveryDepth.rename` — what does not depend on a type's name stays true at every depth.
* `WellNamed.rename` — a well-named type stays well named.
-/

namespace Mixins.TypeDef

/-- A nested type after its owner has been renamed. -/
def following (old new : String) (n : TypeDef) : TypeDef :=
  match Name.rebase n.name old new with
  | some name => n.rename name
  | none => n

theorem renameNested_eq_map (old new : String) (ts : List TypeDef) :
    renameNested old new ts = ts.map (following old new) := by
  induction ts with
  | nil => rfl
  | cons t ts ih =>
    rw [renameNested, ih]
    rfl

theorem rename_eq (t : TypeDef) (name : String) :
    t.rename name = ⟨{ t.toDeclaration with name }, t.nested.map (following t.name name)⟩ := by
  obtain ⟨d, nested⟩ := t
  rw [rename, renameNested_eq_map]

theorem rename_name (t : TypeDef) (name : String) : (t.rename name).name = name := by
  rw [rename_eq]

theorem following_of_nested {old new inner : String} {n : TypeDef}
    (h : n.name = Name.nested old inner) :
    following old new n = n.rename (Name.nested new inner) := by
  rw [following, h, Name.rebase_nested]

/-- **The nested types** of a renamed type are named after it. -/
theorem ComposedNames.rename_nested {t : TypeDef} (h : t.ComposedNames) (name : String) :
    (t.rename name).nested =
      t.nested.map fun n => n.rename (Name.nested name n.innerName) := by
  rw [rename_eq]
  exact List.map_congr_left fun n hn => following_of_nested (h.innerName hn).2

/-- What does not depend on a type's name holds at every depth of a renamed type. -/
theorem AtEveryDepth.rename {P : Declaration → Prop} (hname : ∀ d name, P d → P { d with name })
    {t : TypeDef} (ht : t.AtEveryDepth P) (name : String) : (t.rename name).AtEveryDepth P := by
  induction t using nestedInduction generalizing name with
  | step t ih =>
    obtain ⟨hroot, hbranch⟩ := atEveryDepth_iff.1 ht
    rw [rename_eq, atEveryDepth_iff]
    refine ⟨hname _ _ hroot, List.forall_mem_map.2 fun n hn => ?_⟩
    unfold following
    split
    · exact ih n hn (hbranch n hn) _
    · exact hbranch n hn

/-- **A renamed type** stays well named. -/
theorem WellNamed.rename {t : TypeDef} (h : t.WellNamed) {name : String}
    (hname : Name.simple name ≠ "") : (t.rename name).WellNamed := by
  induction t using nestedInduction generalizing name with
  | step t ih =>
    have hnested := h.composedNames.rename_nested name
    refine .ofBranches ?_ ⟨fun n hn => ?_, ?_⟩ fun n hn => ?_
    · rw [simpleName, rename_name]
      exact hname
    · rw [hnested] at hn
      obtain ⟨own, hown, rfl⟩ := List.mem_map.1 hn
      rw [rename_name, rename_name]
      exact ⟨own.innerName, (h.innerName hown).1, rfl⟩
    · have hnames : (t.rename name).nested.map (·.name) =
          (t.nested.map TypeDef.innerName).map (Name.nested name) := by
        rw [hnested, List.map_map, List.map_map]
        exact List.map_congr_left fun n _ => rename_name n _
      rw [hnames]
      exact h.innerNames_nodup.map fun _ _ => Name.nested_right_injective
    · rw [hnested] at hn
      obtain ⟨own, hown, rfl⟩ := List.mem_map.1 hn
      exact ih own hown (h.branch hown) (Name.simple_nested_ne name (h.innerName hown).1.2.1)

end Mixins.TypeDef
