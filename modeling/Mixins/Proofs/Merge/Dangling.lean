import Mixins.Proofs.Merge.Level
import Mixins.Proofs.Reference

/-!
# References to the mixin that are left behind

A member that is taken over from a type of the mixin is rebound from that type to the type that
takes it over. A member of a nested type may also refer to the mixin itself, or to another type
nested in it; such a reference is not touched, and it still names the mixin after the merge.

* `references_absorb`, `rebind_mem_of_lentReferences` — what a declaration refers to after it has
  absorbed another one.
* `mergeMixin_freeOf_iff` — no reference to the mixin is left just if no type of the mixin lends a
  member that refers to a part of the mixin outside that type.
* `freeOf_merged_of_nested_eq_nil` — a mixin without nested types leaves none.
-/

namespace Mixins

/-! ## Lent members -/

section

variable {α : Type} [DecidableEq α] {references : α → List String} {rebind : α → α}
  {source destination : String}

/-- The items of `lent` whose rebound copies are in `taken`. -/
def copied (rebind : α → α) (lent taken : List α) : List α :=
  lent.filter fun x => rebind x ∈ taken

theorem mem_copied {lent taken : List α} {x : α} :
    x ∈ copied rebind lent taken ↔ x ∈ lent ∧ rebind x ∈ taken := by
  simp [copied]

theorem references_gather (admits : List α → α → Bool) (own lent : List α) {r : String}
    (h : ∀ x, references (rebind x) = (references x).map (Name.rebind · source destination))
    (hr : r ∈ (gather admits own (lent.map rebind)).flatMap references) :
    r ∈ own.flatMap references ∨
      r ∈ ((copied rebind lent (gather admits own (lent.map rebind))).flatMap references).map
        (Name.rebind · source destination) := by
  obtain ⟨y, hy, hr⟩ := List.mem_flatMap.1 hr
  rcases mem_gather hy with hown | hlent
  · exact .inl (List.mem_flatMap.2 ⟨y, hown, hr⟩)
  · obtain ⟨x, hx, rfl⟩ := List.mem_map.1 hlent
    rw [h] at hr
    obtain ⟨s, hs, rfl⟩ := List.mem_map.1 hr
    refine .inr (List.mem_map.2 ⟨s, ?_, rfl⟩)
    exact List.mem_flatMap.2 ⟨x, mem_copied.2 ⟨hx, hy⟩, hs⟩

theorem references_copied {lent taken : List α} {r : String}
    (h : ∀ x, references (rebind x) = (references x).map (Name.rebind · source destination))
    (hr : r ∈ (copied rebind lent taken).flatMap references) :
    Name.rebind r source destination ∈ taken.flatMap references := by
  obtain ⟨x, hx, hr⟩ := List.mem_flatMap.1 hr
  refine List.mem_flatMap.2 ⟨rebind x, (mem_copied.1 hx).2, ?_⟩
  rw [h]
  exact List.mem_map.2 ⟨r, hr, rfl⟩

end

namespace Declaration

/-- The references of those members of `lender` that have a rebound copy in `borrower`. -/
def lentReferences (lender borrower : Declaration) : List String :=
  (copied (·.rebind lender.name borrower.name) lender.methods borrower.methods).flatMap
      Method.references ++
    (copied (·.rebind lender.name borrower.name) lender.fields borrower.fields).flatMap
      Field.references ++
    (copied (·.rebind lender.name borrower.name) lender.constructors
      borrower.constructors).flatMap Constructor.references

theorem references_absorb {own lent : Declaration} {r : String}
    (h : r ∈ (own.absorb lent).references) :
    r ∈ own.references ∨
      r ∈ (lent.lentReferences (own.absorb lent)).map (Name.rebind · lent.name own.name) := by
  simp only [references, lentReferences, List.map_append, List.mem_append] at h ⊢
  rcases h with (h | h) | h
  · rcases references_gather admitsMethod own.methods lent.methods
      (Method.references_rebind lent.name own.name) h with h | h
    · exact .inl (.inl (.inl h))
    · exact .inr (.inl (.inl h))
  · rcases references_gather admitsField own.fields lent.fields
      (Field.references_rebind lent.name own.name) h with h | h
    · exact .inl (.inl (.inr h))
    · exact .inr (.inl (.inr h))
  · rcases references_gather admitsConstructor own.constructors lent.constructors
      (Constructor.references_rebind lent.name own.name) h with h | h
    · exact .inl (.inr h)
    · exact .inr (.inr h)

/-- A reference of a lent member is still there, rebound. -/
theorem rebind_mem_of_lentReferences {lender borrower : Declaration} {r : String}
    (h : r ∈ lender.lentReferences borrower) :
    Name.rebind r lender.name borrower.name ∈ borrower.references := by
  simp only [references, lentReferences, List.mem_append] at h ⊢
  rcases h with (h | h) | h
  · exact .inl (.inl (references_copied (Method.references_rebind _ _) h))
  · exact .inl (.inr (references_copied (Field.references_rebind _ _) h))
  · exact .inr (references_copied (Constructor.references_rebind _ _) h)

end Declaration

namespace TypeDef

variable {interfaceName : String}

/-- What a type refers to after a merge is what the target referred to there, or lent by the
mixin's type there and rebound. -/
theorem references_merged {path : List String} {t m x : TypeDef} {r : String} (ht : t.WellNamed)
    (hm : m.WellNamed) (hx : (t.merged interfaceName m).descendant? path = some x)
    (hr : r ∈ x.references) :
    (∃ own, t.descendant? path = some own ∧ r ∈ own.references) ∨
      ∃ lender, m.descendant? path = some lender ∧
        r ∈ (lender.lentReferences x.toDeclaration).map (Name.rebind · lender.name x.name) := by
  have hpath := congrArg (Option.map (·.toDeclaration)) hx
  rw [descendant?_merged ht hm, Option.map_some] at hpath
  cases hreached : reached interfaceName t m path with
  | none =>
    rw [hreached] at hpath
    obtain ⟨own, hown, hdecl⟩ := Option.map_eq_some_iff.1 hpath
    exact .inl ⟨own, hown, hdecl ▸ hr⟩
  | some lender =>
    rw [hreached, Option.map_some, Declaration.receive, Option.some.injEq] at hpath
    rw [← hpath] at hr
    rcases Declaration.references_absorb hr with hr | hr
    · cases hown : t.descendant? path with
      | none =>
        rw [hown] at hr
        simp [Declaration.references, bare] at hr
      | some own =>
        rw [hown] at hr
        exact .inl ⟨own, rfl, hr⟩
    · refine .inr ⟨lender, descendant?_reached hreached, ?_⟩
      rw [← hpath]
      exact hr

/-- Whether no member at any depth refers to the type of the given name or to one nested in it. -/
def FreeOf (t : TypeDef) (owner : String) : Prop :=
  ∀ x ∈ t.types, ∀ r ∈ x.references, ¬ Name.Within owner r

instance (t : TypeDef) (owner : String) : Decidable (t.FreeOf owner) :=
  inferInstanceAs (Decidable (∀ x ∈ t.types, _))

theorem freeOf_merged_iff {t m : TypeDef} (ht : t.WellNamed) (hm : m.WellNamed)
    (houter : ¬ Name.Within m.name t.name) (hinner : ¬ Name.Within t.name m.name)
    (hfree : t.FreeOf m.name) :
    (t.merged interfaceName m).FreeOf m.name ↔
      ∀ path lender borrower, m.descendant? path = some lender →
        (t.merged interfaceName m).descendant? path = some borrower →
        ∀ r ∈ lender.lentReferences borrower.toDeclaration,
          Name.Within m.name r → Name.Within lender.name r := by
  have hresult : (t.merged interfaceName m).WellNamed := ht.merged hm
  constructor
  · intro hclean path lender borrower _ hborrower r hr hwithin
    by_contra hnot
    have hleft := Declaration.rebind_mem_of_lentReferences hr
    rw [Name.rebind_of_not_within _ hnot] at hleft
    exact hclean borrower (descendant?_mem_types hborrower) r hleft hwithin
  · intro hinward x hx r hr
    obtain ⟨path, hpath⟩ := hresult.mem_types_iff.1 hx
    rcases references_merged ht hm hpath hr with ⟨own, hown, hr⟩ | ⟨lender, hlender, hr⟩
    · exact hfree own (descendant?_mem_types hown) r hr
    · refine not_within_of_mem_map_rebind (hinward path lender x hlender hpath) ?_ hr
      -- a name below the type that takes the member over cannot lie below the mixin as well
      intro name hname hboth
      have hx : Name.Within t.name x.name := by
        rw [hresult.name_of_descendant? hpath, merged_name]
        exact Name.within_below _ path
      rcases Name.within_or_within (hx.trans hname) hboth with h | h
      · exact hinner h
      · exact houter h

/-- No reference to a mixin without nested types is left behind. -/
theorem freeOf_merged_of_nested_eq_nil {t m : TypeDef} (ht : t.WellNamed) (hm : m.WellNamed)
    (houter : ¬ Name.Within m.name t.name) (hinner : ¬ Name.Within t.name m.name)
    (hfree : t.FreeOf m.name) (hnested : m.nested = []) :
    (t.merged interfaceName m).FreeOf m.name := by
  rw [freeOf_merged_iff ht hm houter hinner hfree]
  intro path lender borrower hlender _ r _ hwithin
  cases path with
  | nil =>
    rw [descendant?, Option.some.injEq] at hlender
    exact hlender ▸ hwithin
  | cons segment path =>
    rw [descendant?, nestedType?, hnested] at hlender
    cases hlender

/-- **When no reference to the mixin is left behind.** A target that is apart from the mixin and
does not refer to it is free of references to the mixin after the merge just if every member that a
type of the mixin lends refers to no part of the mixin but that type and the types nested in it. -/
theorem mergeMixin_freeOf_iff {target mixin : TypeDef} (htarget : target.WellNamed)
    (hmixin : mixin.WellNamed) (houter : ¬ Name.Within mixin.name target.name)
    (hinner : ¬ Name.Within target.name mixin.name) (hfree : target.FreeOf mixin.name)
    (outcome : Outcome) :
    (target.mergeMixin interfaceName mixin outcome).target.FreeOf mixin.name ↔
      ∀ path lender borrower, mixin.descendant? path = some lender →
        (target.mergeMixin interfaceName mixin outcome).target.descendant? path = some borrower →
        ∀ r ∈ lender.lentReferences borrower.toDeclaration,
          Name.Within mixin.name r → Name.Within lender.name r := by
  have hmerged : (target.mergeMixin interfaceName mixin outcome).target =
      target.merged interfaceName mixin := Merge.merge_target mixin ⟨target, outcome⟩
  rw [hmerged]
  exact freeOf_merged_iff htarget hmixin houter hinner hfree

/-- A class with one method, which takes a parameter of the given type. -/
def withParameter (name parameter : String) (nested : List TypeDef) : TypeDef :=
  ⟨{ (bare name .classType).toDeclaration with
      methods := [⟨"use", ⟨[.object parameter], .void⟩, publicAccess, none, none⟩] }, nested⟩

/-- A nested type that lends a method with a parameter of the outer type leaves a reference to the
mixin behind, though its outer type does not. -/
theorem mergeMixin_freeOf_iff_outerParameter :
    let target := bare "b.T" .classType
    let mixin := withParameter "a.M" "a.M$A" [withParameter "a.M$A" "a.M" []]
    (target.WellNamed ∧ mixin.WellNamed) ∧
    (¬ Name.Within mixin.name target.name ∧ ¬ Name.Within target.name mixin.name) ∧
    target.FreeOf mixin.name ∧
    ¬ (target.mergeMixin "StringTypes" mixin .zero).target.FreeOf mixin.name := by
  intro target mixin
  have htarget : target.WellNamed := by decide
  have hmixin : mixin.WellNamed := by decide
  have houter : ¬ Name.Within mixin.name target.name := by decide
  have hinner : ¬ Name.Within target.name mixin.name := by decide
  have hfree : target.FreeOf mixin.name := by decide
  refine ⟨⟨htarget, hmixin⟩, ⟨houter, hinner⟩, hfree, fun h => ?_⟩
  have hinward := (mergeMixin_freeOf_iff htarget hmixin houter hinner hfree .zero).1 h
  exact absurd (hinward ["A"] (withParameter "a.M$A" "a.M" []) (withParameter "b.T$A" "a.M" [])
    (by decide) (by decide) "a.M" (by decide) (by decide)) (by decide)

end TypeDef

end Mixins
