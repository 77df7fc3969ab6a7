import Mixins.Proofs.Merge.Change
import Mixins.Proofs.Tree

/-!
# A merge only extends its target

`t.Extends t'` says that `t'` is `t` with members and nested types put last, at any depth: nothing
is taken away, replaced or moved. It makes no assumption on the names in the types, on repeated
members, or on what was counted before.

* `Extends.refl`, `Extends.trans` — extension is a preorder.
* `Extends.size_le`, `Extends.eq_of_size_le` — an extension is no smaller, and no change at all if
  it is no larger.
* `Change.extends` — every elementary change of a merge extends the target.
* `mergeMixin_extends` — so does every merge.
-/

namespace Mixins

structure Declaration.Extends (d d' : Declaration) : Prop where
  name : d'.name = d.name
  kind : d'.kind = d.kind
  access : d'.access = d.access
  superType : d'.superType = d.superType
  interfaces : d'.interfaces = d.interfaces
  markers : d'.markers = d.markers
  methods : d.methods <+: d'.methods
  fields : d.fields <+: d'.fields
  constructors : d.constructors <+: d'.constructors

/-- Whether the second type is the first one with members and nested types put last, in itself and
in the types nested in it. -/
inductive TypeDef.Extends : TypeDef → TypeDef → Prop
  | intro {t t' : TypeDef} (declaration : t.toDeclaration.Extends t'.toDeclaration)
      (length_le : t.nested.length ≤ t'.nested.length)
      (nested : ∀ i (h : i < t.nested.length) (h' : i < t'.nested.length),
        Extends t.nested[i] t'.nested[i]) : Extends t t'

theorem Declaration.Extends.refl (d : Declaration) : d.Extends d :=
  ⟨rfl, rfl, rfl, rfl, rfl, rfl, List.prefix_rfl, List.prefix_rfl, List.prefix_rfl⟩

theorem Declaration.Extends.trans {a b c : Declaration} (hab : a.Extends b) (hbc : b.Extends c) :
    a.Extends c where
  name := hbc.name.trans hab.name
  kind := hbc.kind.trans hab.kind
  access := hbc.access.trans hab.access
  superType := hbc.superType.trans hab.superType
  interfaces := hbc.interfaces.trans hab.interfaces
  markers := hbc.markers.trans hab.markers
  methods := hab.methods.trans hbc.methods
  fields := hab.fields.trans hbc.fields
  constructors := hab.constructors.trans hbc.constructors

namespace TypeDef

theorem Extends.declaration {t t' : TypeDef} (h : t.Extends t') :
    t.toDeclaration.Extends t'.toDeclaration := by
  cases h with
  | intro declaration _ _ => exact declaration

theorem Extends.name {t t' : TypeDef} (h : t.Extends t') : t'.name = t.name := h.declaration.name

theorem Extends.refl (t : TypeDef) : t.Extends t := by
  induction t using nestedInduction with
  | step t ih =>
    exact .intro (.refl t.toDeclaration) (Nat.le_refl _) fun i h _ => ih _ (List.getElem_mem h)

theorem Extends.trans {a b c : TypeDef} (hab : a.Extends b) (hbc : b.Extends c) :
    a.Extends c := by
  induction hab generalizing c with
  | intro hdecl hlen _ ih =>
    cases hbc with
    | intro hdecl' hlen' hnested' =>
      refine .intro (hdecl.trans hdecl') (Nat.le_trans hlen hlen') fun i h h' => ?_
      have hi := Nat.lt_of_lt_of_le h hlen
      exact ih i h hi (hnested' i hi h')

/-- More members, the same nested types. -/
theorem Extends.ofDeclaration {d d' : Declaration} (nested : List TypeDef) (h : d.Extends d') :
    Extends ⟨d, nested⟩ ⟨d', nested⟩ :=
  .intro h (Nat.le_refl _) fun _ _ _ => .refl _

/-- One more nested type. -/
theorem Extends.append (d : Declaration) (nested : List TypeDef) (n : TypeDef) :
    Extends ⟨d, nested⟩ ⟨d, nested ++ [n]⟩ := by
  refine .intro (.refl d) (by simp) fun i h _ => ?_
  have hi : (nested ++ [n])[i] = nested[i] := List.getElem_append_left h
  rw [hi]
  exact .refl _

/-- One nested type extended in its place. -/
theorem Extends.inside (d : Declaration) (before after : List TypeDef) {own own' : TypeDef}
    (h : own.Extends own') :
    Extends ⟨d, before ++ own :: after⟩ ⟨d, before ++ own' :: after⟩ := by
  refine .intro (.refl d) (by simp) fun i hi hi' => ?_
  simp only [List.getElem_append, List.getElem_cons]
  split
  · exact .refl _
  · split
    · exact h
    · exact .refl _

/-! ## The size of an extension -/

theorem memberCount_le {t t' : TypeDef} (h : t.toDeclaration.Extends t'.toDeclaration) :
    t.memberCount ≤ t'.memberCount := by
  have hmethods := h.methods.length_le
  have hfields := h.fields.length_le
  have hconstructors := h.constructors.length_le
  unfold memberCount
  omega

theorem declaration_eq_of_memberCount_le {t t' : TypeDef}
    (h : t.toDeclaration.Extends t'.toDeclaration) (hle : t'.memberCount ≤ t.memberCount) :
    t'.toDeclaration = t.toDeclaration := by
  have hmethods := h.methods.length_le
  have hfields := h.fields.length_le
  have hconstructors := h.constructors.length_le
  unfold memberCount at hle
  rw [Declaration.mk.injEq]
  exact ⟨h.name, h.kind, h.access, h.superType, h.interfaces, h.markers,
    (h.fields.eq_of_length (by omega)).symm, (h.methods.eq_of_length (by omega)).symm,
    (h.constructors.eq_of_length (by omega)).symm⟩

/-- A list that is at least as long, with items at least as large in the same places, is no smaller,
and it is the same list if it is no larger and its items are. -/
theorem sum_size_of_getElem {ts ts' : List TypeDef} (hlen : ts.length ≤ ts'.length)
    (h : ∀ i (h : i < ts.length) (h' : i < ts'.length),
      ts[i].size ≤ ts'[i].size ∧ (ts'[i].size ≤ ts[i].size → ts'[i] = ts[i])) :
    ts.length + (ts.map size).sum ≤ ts'.length + (ts'.map size).sum ∧
      (ts'.length + (ts'.map size).sum ≤ ts.length + (ts.map size).sum → ts' = ts) := by
  induction ts generalizing ts' with
  | nil =>
    refine ⟨by simp, fun hle => List.eq_nil_of_length_eq_zero ?_⟩
    rw [List.length_nil, List.map_nil, List.sum_nil] at hle
    omega
  | cons t ts ih =>
    cases ts' with
    | nil => simp at hlen
    | cons t' ts' =>
      obtain ⟨hle, heq⟩ := h 0 (by simp) (by simp)
      have hlens : ts.length ≤ ts'.length := by simpa using hlen
      obtain ⟨hles, heqs⟩ := ih hlens fun i hi hi' =>
        h (i + 1) (by simpa using hi) (by simpa using hi')
      simp only [List.getElem_cons_zero] at hle heq
      simp only [List.length_cons, List.map_cons, List.sum_cons]
      refine ⟨by omega, fun hge => ?_⟩
      rw [heq (by omega), heqs (by omega)]

theorem Extends.size {t t' : TypeDef} (h : t.Extends t') :
    t.size ≤ t'.size ∧ (t'.size ≤ t.size → t' = t) := by
  induction h with
  | @intro t t' hdecl hlen _ ih =>
    have hmembers := memberCount_le hdecl
    obtain ⟨hle, heq⟩ := sum_size_of_getElem hlen ih
    rw [size_eq, size_eq t']
    refine ⟨by omega, fun hge => ?_⟩
    have hdeclaration := declaration_eq_of_memberCount_le hdecl (by omega)
    have hnested := heq (by omega)
    obtain ⟨d, nested⟩ := t
    obtain ⟨d', nested'⟩ := t'
    rw [TypeDef.mk.injEq]
    exact ⟨hdeclaration, hnested⟩

theorem Extends.size_le {t t' : TypeDef} (h : t.Extends t') : t.size ≤ t'.size := h.size.1

/-- An extension that is no larger is no change. -/
theorem Extends.eq_of_size_le {t t' : TypeDef} (h : t.Extends t') (hle : t'.size ≤ t.size) :
    t' = t := h.size.2 hle

end TypeDef

namespace Merge

open TypeDef

theorem MemberChange.extends {p q : Progress} (h : MemberChange p q) :
    p.target.Extends q.target := by
  obtain ⟨⟨d, nested⟩, o⟩ := p
  have hself := Declaration.Extends.refl d
  cases h with
  | ignored | failed => exact .refl _
  | method m => exact .ofDeclaration nested { hself with methods := List.prefix_append _ _ }
  | field f => exact .ofDeclaration nested { hself with fields := List.prefix_append _ _ }
  | ofConstructor c =>
    exact .ofDeclaration nested { hself with constructors := List.prefix_append _ _ }

theorem Change.extends {p q : Progress} (h : Change p q) : p.target.Extends q.target := by
  induction h with
  | member h => exact h.extends
  | created p n =>
    obtain ⟨⟨d, nested⟩, o⟩ := p
    exact .append d nested _
  | inside d before after _ ih => exact .inside d before after ih

theorem Changes.extends {p q : Progress} (h : Changes p q) : p.target.Extends q.target := by
  induction h with
  | refl => exact .refl _
  | tail _ hstep ih => exact ih.trans hstep.extends

theorem merge_extends (interfaceName : String) (m : TypeDef) (p : Progress) :
    p.target.Extends (merge interfaceName m p).target :=
  (merge_changes interfaceName m p).extends

end Merge

/-- **A merge only extends its target**, whatever the mixin and the target are and whatever was
counted before. -/
theorem TypeDef.mergeMixin_extends (interfaceName : String) (target mixin : TypeDef)
    (outcome : Outcome) :
    target.Extends (target.mergeMixin interfaceName mixin outcome).target :=
  Merge.merge_extends interfaceName mixin ⟨target, outcome⟩

end Mixins
