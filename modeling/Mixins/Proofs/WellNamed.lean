import Mathlib.Data.List.Nodup
import Mixins.Proofs.NestedName
import Mixins.Proofs.Tree

/-!
# Well-named types

A type is well named if the name of each type nested in it, at every depth, is the name of the type
around it, a dollar sign and a segment, and no two types nested in one type have the same name. In a
well-named type a path of declared names leads to one type, and every type has such a path.

* `WellNamed.nestedType?_eq_some_iff` — a nested type is found under its segment.
* `WellNamed.mem_types_iff` — the types of the tree are those that a path leads to.
* `NamedAlong.name_of_descendant?`, `WellNamed.name_of_descendant?` — the path of a type can be read
  off its name; only the types on the path need be named after the types around them.
-/

namespace Mixins.TypeDef

/-- Whether the types nested directly in the type are named after it, no two alike. -/
structure NamesNested (t : TypeDef) : Prop where
  composed : ∀ n ∈ t.nested, Name.IsNestedIn t.name n.name
  distinct : (t.nested.map (·.name)).Nodup

theorem namesNested_iff {t : TypeDef} : t.NamesNested ↔
    (∀ n ∈ t.nested, Name.IsNestedIn t.name n.name) ∧ (t.nested.map (·.name)).Nodup :=
  ⟨fun h => ⟨h.composed, h.distinct⟩, fun h => ⟨h.1, h.2⟩⟩

instance (t : TypeDef) : Decidable t.NamesNested := decidable_of_iff _ namesNested_iff.symm

/-- Whether the types nested in the type, at every depth, are named after the types around them. Two
of them may have one name. -/
structure ComposedNames (t : TypeDef) : Prop where
  simple_ne : t.simpleName ≠ ""
  composed : ∀ x ∈ t.types, ∀ n ∈ x.nested, Name.IsNestedIn x.name n.name

theorem composedNames_iff {t : TypeDef} : t.ComposedNames ↔
    t.simpleName ≠ "" ∧ ∀ x ∈ t.types, ∀ n ∈ x.nested, Name.IsNestedIn x.name n.name :=
  ⟨fun h => ⟨h.simple_ne, h.composed⟩, fun h => ⟨h.1, h.2⟩⟩

instance (t : TypeDef) : Decidable t.ComposedNames := decidable_of_iff _ composedNames_iff.symm

theorem ComposedNames.branch {t n : TypeDef} (h : t.ComposedNames) (hn : n ∈ t.nested) :
    n.ComposedNames := by
  obtain ⟨segment, hs, hname⟩ := h.composed t t.self_mem_types n hn
  refine ⟨?_, fun x hx => h.composed x (types_subset hn hx)⟩
  rw [simpleName, hname]
  exact Name.simple_nested_ne _ hs.2.1

theorem ComposedNames.innerName {t n : TypeDef} (h : t.ComposedNames) (hn : n ∈ t.nested) :
    Name.IsSegment n.innerName ∧ n.name = Name.nested t.name n.innerName := by
  obtain ⟨segment, hs, hname⟩ := h.composed t t.self_mem_types n hn
  have hinner : n.innerName = segment := by
    rw [TypeDef.innerName, hname, Name.inner_nested h.simple_ne hs]
  rw [hinner]
  exact ⟨hs, hname⟩

structure WellNamed (t : TypeDef) : Prop where
  simple_ne : t.simpleName ≠ ""
  nested : ∀ x ∈ t.types, x.NamesNested

theorem wellNamed_iff {t : TypeDef} :
    t.WellNamed ↔ t.simpleName ≠ "" ∧ ∀ x ∈ t.types, x.NamesNested :=
  ⟨fun h => ⟨h.simple_ne, h.nested⟩, fun h => ⟨h.1, h.2⟩⟩

instance (t : TypeDef) : Decidable t.WellNamed := decidable_of_iff _ wellNamed_iff.symm

theorem WellNamed.root {t : TypeDef} (h : t.WellNamed) : t.NamesNested :=
  h.nested t t.self_mem_types

theorem WellNamed.composedNames {t : TypeDef} (h : t.WellNamed) : t.ComposedNames :=
  ⟨h.simple_ne, fun x hx => (h.nested x hx).composed⟩

theorem WellNamed.branch {t n : TypeDef} (h : t.WellNamed) (hn : n ∈ t.nested) : n.WellNamed :=
  ⟨(h.composedNames.branch hn).simple_ne, fun x hx => h.nested x (types_subset hn hx)⟩

/-- A type is well named as soon as its root is and its branches are. -/
theorem WellNamed.ofBranches {t : TypeDef} (hne : t.simpleName ≠ "") (hroot : t.NamesNested)
    (hbranch : ∀ n ∈ t.nested, n.WellNamed) : t.WellNamed := by
  refine ⟨hne, fun x hx => ?_⟩
  rcases mem_types.1 hx with rfl | ⟨n, hn, hx⟩
  · exact hroot
  · exact (hbranch n hn).nested x hx

theorem WellNamed.ofName {t : TypeDef} {d : Declaration} (h : t.WellNamed)
    (hname : d.name = t.name) : WellNamed ⟨d, t.nested⟩ := by
  refine .ofBranches ?_ ⟨fun n hn => ?_, h.root.distinct⟩ fun n hn => h.branch hn
  · rw [simpleName, hname]
    exact h.simple_ne
  · rw [hname]
    exact h.root.composed n hn

/-- A nested type may be replaced by one of the same name. -/
theorem WellNamed.replace {t own own' : TypeDef} {before after : List TypeDef} (h : t.WellNamed)
    (split : t.nested = before ++ own :: after) (hname : own'.name = own.name)
    (hown' : own'.WellNamed) :
    WellNamed { t with nested := before ++ own' :: after } := by
  have hown : own ∈ t.nested := by simp [split]
  have hcases : ∀ x ∈ before ++ own' :: after, x = own' ∨ x ∈ t.nested := by
    intro x hx
    simp only [split, List.mem_append, List.mem_cons] at hx ⊢
    rcases hx with hx | rfl | hx
    · exact .inr (.inl hx)
    · exact .inl rfl
    · exact .inr (.inr (.inr hx))
  refine .ofBranches h.simple_ne ⟨fun x hx => ?_, ?_⟩ fun x hx => ?_
  · rcases hcases x hx with rfl | hx
    · rw [hname]
      exact h.root.composed own hown
    · exact h.root.composed x hx
  · have hnames : (before ++ own' :: after).map (·.name) = t.nested.map (·.name) := by
      simp [split, hname]
    rw [hnames]
    exact h.root.distinct
  · rcases hcases x hx with rfl | hx
    · exact hown'
    · exact h.branch hx

/-- A nested type of a new name may be put last. -/
theorem WellNamed.append {t n : TypeDef} (h : t.WellNamed) (hname : Name.IsNestedIn t.name n.name)
    (hnew : ∀ x ∈ t.nested, x.name ≠ n.name) (hn : n.WellNamed) :
    WellNamed { t with nested := t.nested ++ [n] } := by
  refine .ofBranches h.simple_ne ⟨fun x hx => ?_, ?_⟩ fun x hx => ?_
  · rcases List.mem_append.1 hx with hx | hx
    · exact h.root.composed x hx
    · rw [List.mem_singleton.1 hx]
      exact hname
  · rw [List.map_append, List.nodup_append]
    refine ⟨h.root.distinct, by simp, ?_⟩
    intro a ha b hb
    obtain ⟨x, hx, rfl⟩ := List.mem_map.1 ha
    rw [List.map_singleton, List.mem_singleton] at hb
    rw [hb]
    exact hnew x hx
  · rcases List.mem_append.1 hx with hx | hx
    · exact h.branch hx
    · rw [List.mem_singleton.1 hx]
      exact hn

theorem WellNamed.innerName {t n : TypeDef} (h : t.WellNamed) (hn : n ∈ t.nested) :
    Name.IsSegment n.innerName ∧ n.name = Name.nested t.name n.innerName :=
  h.composedNames.innerName hn

/-- The simple name of a nested type goes on from that of the type around it. -/
theorem WellNamed.simpleName_branch {t n : TypeDef} (h : t.WellNamed) (hn : n ∈ t.nested) :
    n.simpleName = Name.nested t.simpleName n.innerName := by
  obtain ⟨hsegment, hname⟩ := h.innerName hn
  rw [simpleName, hname, Name.simple_nested _ hsegment.2.1, simpleName]

theorem WellNamed.eq_of_innerName {t m n : TypeDef} (h : t.WellNamed) (hm : m ∈ t.nested)
    (hn : n ∈ t.nested) (heq : m.innerName = n.innerName) : m = n := by
  have hname : m.name = n.name := by
    rw [(h.innerName hm).2, (h.innerName hn).2, heq]
  exact List.inj_on_of_nodup_map h.root.distinct hm hn hname

theorem WellNamed.innerNames_nodup {t : TypeDef} (h : t.WellNamed) :
    (t.nested.map TypeDef.innerName).Nodup := by
  have hnested : t.nested.Nodup := .of_map _ h.root.distinct
  exact hnested.map_on fun m hm n hn => h.eq_of_innerName hm hn

theorem WellNamed.nestedType?_eq_some_iff {t n : TypeDef} {inner : String} (h : t.WellNamed) :
    t.nestedType? inner = some n ↔ n ∈ t.nested ∧ n.innerName = inner := by
  refine ⟨nestedType?_some, fun ⟨hn, hinner⟩ => ?_⟩
  cases hfind : t.nestedType? inner with
  | none =>
    have := List.find?_eq_none.1 hfind n hn
    simp [hinner] at this
  | some m =>
    obtain ⟨hm, hm'⟩ := nestedType?_some hfind
    rw [h.eq_of_innerName hm hn (hm'.trans hinner.symm)]

theorem WellNamed.mem_types_iff {t x : TypeDef} (h : t.WellNamed) :
    x ∈ t.types ↔ ∃ path, t.descendant? path = some x := by
  refine ⟨?_, fun ⟨path, hx⟩ => descendant?_mem_types hx⟩
  induction t using nestedInduction with
  | step t ih =>
    intro hx
    rcases mem_types.1 hx with rfl | ⟨n, hn, hx⟩
    · exact ⟨[], rfl⟩
    · obtain ⟨path, hpath⟩ := ih n hn (h.branch hn) hx
      refine ⟨n.innerName :: path, ?_⟩
      rw [descendant?, h.nestedType?_eq_some_iff.2 ⟨hn, rfl⟩, Option.bind_some, hpath]

/-- Whether each type that is entered on the path is named after the type around it. -/
def NamedAlong (t : TypeDef) : List String → Prop
  | [] => True
  | inner :: path => ∀ n, t.nestedType? inner = some n →
      n.name = Name.nested t.name inner ∧ n.NamedAlong path

theorem NamedAlong.name_of_descendant? {path : List String} {t x : TypeDef} (h : t.NamedAlong path)
    (hx : t.descendant? path = some x) : x.name = Name.below t.name path := by
  induction path generalizing t with
  | nil =>
    rw [descendant?, Option.some.injEq] at hx
    rw [← hx]
    rfl
  | cons inner path ih =>
    rw [descendant?, Option.bind_eq_some_iff] at hx
    obtain ⟨n, hn, hx⟩ := hx
    obtain ⟨hname, hbelow⟩ := h n hn
    rw [ih hbelow hx, hname]
    rfl

theorem WellNamed.namedAlong {t : TypeDef} (h : t.WellNamed) (path : List String) :
    t.NamedAlong path := by
  induction path generalizing t with
  | nil => trivial
  | cons inner path ih =>
    intro n hn
    obtain ⟨hmem, rfl⟩ := nestedType?_some hn
    exact ⟨(h.innerName hmem).2, ih (h.branch hmem)⟩

theorem WellNamed.name_of_descendant? {path : List String} {t x : TypeDef} (h : t.WellNamed)
    (hx : t.descendant? path = some x) : x.name = Name.below t.name path :=
  (h.namedAlong path).name_of_descendant? hx

end Mixins.TypeDef
