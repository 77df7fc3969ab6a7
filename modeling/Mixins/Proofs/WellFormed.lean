import Mixins.Proofs.Merge.Level
import Mixins.Proofs.Rename

/-!
# Well-formed types

A type is well formed if it is well named and no type in it, at any depth, declares a member twice:
two fields of one name, or two methods or constructors of one identity.

Types are changed by adding members, nested types and all that a mixin lends, and by renaming.
Whatever is changed in one of these ways stays well formed, in whatever order they come. A mixin
need not be well formed for that: the target admits each of its members or refuses it.

* `WellFormed.addMethod`, `WellFormed.addField`, `WellFormed.addConstructor`,
  `WellFormed.nestedOrInsert`, `WellFormed.rename`, `WellFormed.merged` — each change for itself.
* `AtEveryDepth.merged` — what taking over members keeps is kept at every depth.
* `addition_fails_iff` — an addition fails just if it leaves the type as it was.
* `wellFormed_mutateAll` — a run of changes.
-/

namespace Mixins

/-- Whether no member is declared twice. -/
structure Declaration.DistinctMembers (d : Declaration) : Prop where
  fields : (d.fields.map (·.name)).Nodup
  methods : (d.methods.map (·.identity)).Nodup
  constructors : (d.constructors.map (·.identity)).Nodup

theorem Declaration.distinctMembers_iff {d : Declaration} : d.DistinctMembers ↔
    (d.fields.map (·.name)).Nodup ∧ (d.methods.map (·.identity)).Nodup ∧
      (d.constructors.map (·.identity)).Nodup :=
  ⟨fun h => ⟨h.fields, h.methods, h.constructors⟩, fun h => ⟨h.1, h.2.1, h.2.2⟩⟩

instance (d : Declaration) : Decidable d.DistinctMembers :=
  decidable_of_iff _ Declaration.distinctMembers_iff.symm

theorem nodup_map_concat {α : Type} {key : α → String} {items : List α} {x : α}
    (h : (items.map key).Nodup) (hnew : key x ∉ items.map key) :
    ((items ++ [x]).map key).Nodup := by
  rw [List.map_append, List.map_singleton]
  rw [← List.concat_eq_append]
  exact h.concat hnew

/-- What is gathered has no key twice if nothing is admitted whose key is taken. -/
theorem nodup_map_gather {α : Type} {admits : List α → α → Bool} {key : α → String}
    (hadmits : ∀ items x, admits items x = true → key x ∉ items.map key) {own lent : List α}
    (h : (own.map key).Nodup) : ((gather admits own lent).map key).Nodup := by
  induction lent generalizing own with
  | nil => exact h
  | cons x lent ih =>
    rw [gather_cons]
    refine ih ?_
    split
    · exact nodup_map_concat h (hadmits own x ‹_›)
    · exact h

/-- **Taking over members** declares none twice, whatever is lent. -/
theorem Declaration.DistinctMembers.absorb {own : Declaration} (h : own.DistinctMembers)
    (lent : Declaration) : (own.absorb lent).DistinctMembers where
  fields := nodup_map_gather (fun fields f hadmits => by simp_all [admitsField]) h.fields
  methods := nodup_map_gather (fun methods m hadmits => by simp_all [admitsMethod]) h.methods
  constructors := nodup_map_gather (fun constructors c hadmits => by simp_all [admitsConstructor])
    h.constructors

namespace TypeDef

open Merge (freshFor)

variable {t t' : TypeDef}

/-! ## Every depth of a merged type -/

section

variable {interfaceName : String} {P : Declaration → Prop}
  (hfresh : ∀ t n : TypeDef, P (freshFor t n).toDeclaration)

include hfresh

/-- **What taking over members keeps** is kept at every depth, if it holds of an empty type. -/
theorem AtEveryDepth.merged (habsorb : ∀ own lent, P own → P (own.absorb lent))
    (ht : t.AtEveryDepth P) (m : TypeDef) : (t.merged interfaceName m).AtEveryDepth P := by
  have hempty : ∀ t n : TypeDef, (freshFor t n).AtEveryDepth P := fun t n =>
    atEveryDepth_iff.2 ⟨hfresh t n, fun _ hx => nomatch hx⟩
  induction m using nestedInduction generalizing t with
  | step m ih =>
    obtain ⟨hroot, hbranch⟩ := atEveryDepth_iff.1 ht
    rw [atEveryDepth_iff, merged_declaration, merged_nested]
    exact ⟨habsorb _ _ hroot,
      forall_nested_mergedNested (fun n _ t => hempty t n) hbranch fun n hn own => ih n hn⟩

end

/-! ## Well-formed types -/

structure WellFormed (t : TypeDef) : Prop where
  wellNamed : t.WellNamed
  distinct : t.AtEveryDepth Declaration.DistinctMembers

theorem wellFormed_iff : t.WellFormed ↔
    t.WellNamed ∧ t.AtEveryDepth Declaration.DistinctMembers :=
  ⟨fun h => ⟨h.wellNamed, h.distinct⟩, fun h => ⟨h.1, h.2⟩⟩

instance (t : TypeDef) : Decidable t.WellFormed := decidable_of_iff _ wellFormed_iff.symm

/-- Another declaration of the same name at the root. -/
theorem WellFormed.ofDeclaration {d : Declaration} (h : t.WellFormed) (hname : d.name = t.name)
    (hdistinct : d.DistinctMembers) : WellFormed ⟨d, t.nested⟩ :=
  ⟨h.wellNamed.ofName hname, atEveryDepth_iff.2 ⟨hdistinct, (atEveryDepth_iff.1 h.distinct).2⟩⟩

/-! ## Additions -/

/-- When a method can be added, and what that comes to. -/
theorem addMethod_eq_ok_iff {m : Method} : t.addMethod m = (t', .ok ()) ↔
    isMemberName m.name = true ∧ m.identity ∉ t.methods.map (·.identity) ∧
      t' = { t with methods := t.methods ++ [m] } := by
  rw [Merge.addMethod_eq]
  by_cases hvalid : isMemberName m.name = true
  · by_cases htaken : m.identity ∈ t.methods.map (·.identity)
    · have hany : t.methods.any (·.identity == m.identity) = true := by simpa using htaken
      simp [hvalid, hany, htaken]
    · have hany : t.methods.any (·.identity == m.identity) = false := by simpa using htaken
      simp [hvalid, hany, htaken, eq_comm]
  · simp [hvalid]

theorem addField_eq_ok_iff {f : Field} : t.addField f = (t', .ok ()) ↔ isMemberName f.name = true ∧
    f.name ∉ t.fields.map (·.name) ∧ t' = { t with fields := t.fields ++ [f] } := by
  rw [Merge.addField_eq, Merge.hasField_eq_any]
  by_cases hvalid : isMemberName f.name = true
  · by_cases htaken : f.name ∈ t.fields.map (·.name)
    · have hany : t.fields.any (·.name == f.name) = true := by simpa using htaken
      simp [hvalid, hany, htaken]
    · have hany : t.fields.any (·.name == f.name) = false := by simpa using htaken
      simp [hvalid, hany, htaken, eq_comm]
  · simp [hvalid]

theorem addConstructor_eq_ok_iff {c : Constructor} : t.addConstructor c = (t', .ok ()) ↔
    c.identity ∉ t.constructors.map (·.identity) ∧
      t' = { t with constructors := t.constructors ++ [c] } := by
  unfold addConstructor
  by_cases htaken : c.identity ∈ t.constructors.map (·.identity)
  · have hany : t.constructors.any (·.identity == c.identity) = true := by simpa using htaken
    simp [hany, htaken]
  · have hany : t.constructors.any (·.identity == c.identity) = false := by simpa using htaken
    simp [hany, htaken, eq_comm]

theorem WellFormed.addMethod (h : t.WellFormed) (m : Method) : (t.addMethod m).1.WellFormed := by
  rcases t.addMethod_cases m with ⟨cause, hfails⟩ | hadded
  · rwa [hfails]
  · obtain ⟨-, hnew, -⟩ := addMethod_eq_ok_iff.1 hadded
    have hroot := h.distinct t t.self_mem_types
    rw [hadded]
    exact h.ofDeclaration rfl { hroot with methods := nodup_map_concat hroot.methods hnew }

theorem WellFormed.addField (h : t.WellFormed) (f : Field) : (t.addField f).1.WellFormed := by
  rcases t.addField_cases f with ⟨cause, hfails⟩ | hadded
  · rwa [hfails]
  · obtain ⟨-, hnew, -⟩ := addField_eq_ok_iff.1 hadded
    have hroot := h.distinct t t.self_mem_types
    rw [hadded]
    exact h.ofDeclaration rfl { hroot with fields := nodup_map_concat hroot.fields hnew }

theorem WellFormed.addConstructor (h : t.WellFormed) (c : Constructor) :
    (t.addConstructor c).1.WellFormed := by
  rcases t.addConstructor_cases c with ⟨cause, hfails⟩ | hadded
  · rwa [hfails]
  · obtain ⟨hnew, -⟩ := addConstructor_eq_ok_iff.1 hadded
    have hroot := h.distinct t t.self_mem_types
    rw [hadded]
    exact h.ofDeclaration rfl
      { hroot with constructors := nodup_map_concat hroot.constructors hnew }

/-! ## Nested types, names and mixins -/

theorem distinctMembers_bare (name : String) (kind : Kind) (access : UInt16) :
    Declaration.DistinctMembers { (bare name kind).toDeclaration with access } :=
  ⟨.nil, .nil, .nil⟩

theorem WellFormed.nestedOrInsert {inner : String} (h : t.WellFormed)
    (hsegment : Name.IsSegment inner) (kind : Kind) (access : UInt16) :
    (t.nestedOrInsert inner kind access).1.WellFormed := by
  unfold TypeDef.nestedOrInsert
  cases hfind : t.nested.findIdx? (·.innerName == inner) with
  | some i => exact h
  | none =>
    have hnew : ∀ x ∈ t.nested, x.innerName ≠ inner := by
      simpa [List.findIdx?_eq_none_iff] using hfind
    have hfresh : WellNamed { bare (Name.nested t.name inner) kind with access } :=
      .ofBranches (Name.simple_nested_ne _ hsegment.2.1) ⟨by simp [bare], .nil⟩ (by simp [bare])
    refine ⟨h.wellNamed.append ⟨inner, hsegment, rfl⟩ (fun x hx hname => hnew x hx ?_) hfresh,
      atEveryDepth_iff.2 ⟨h.distinct t t.self_mem_types, fun n hn => ?_⟩⟩
    · rw [innerName, hname]
      exact Name.inner_nested h.wellNamed.simple_ne hsegment
    · rcases List.mem_append.1 hn with hn | hn
      · exact (atEveryDepth_iff.1 h.distinct).2 n hn
      · rw [List.mem_singleton.1 hn]
        exact atEveryDepth_iff.2 ⟨distinctMembers_bare _ kind access, by simp [bare]⟩

theorem WellFormed.rename {name : String} (h : t.WellFormed) (hname : Name.simple name ≠ "") :
    (t.rename name).WellFormed :=
  ⟨h.wellNamed.rename hname,
    h.distinct.rename (fun _ _ hd => ⟨hd.fields, hd.methods, hd.constructors⟩) name⟩

theorem WellFormed.merged {m : TypeDef} (h : t.WellFormed) (hm : m.ComposedNames)
    (interfaceName : String) : (t.merged interfaceName m).WellFormed :=
  ⟨h.wellNamed.merged_composed hm,
    h.distinct.merged (fun _ n => distinctMembers_bare _ n.kind n.access)
      (fun _ lent hown => hown.absorb lent) m⟩

/-! ## Runs of changes -/

/-- The ways to change a type. -/
inductive Mutation where
  | addMethod (m : Method)
  | addField (f : Field)
  | addConstructor (c : Constructor)
  | nestedOrInsert (inner : String) (kind : Kind) (access : UInt16)
  | rename (name : String)
  | mergeMixin (interfaceName : String) (mixin : TypeDef) (outcome : Outcome)

namespace Mutation

/-- Whether the names in it are such that a well-named type can take it. -/
def Admissible : Mutation → Prop
  | .nestedOrInsert inner _ _ => Name.IsSegment inner
  | .rename name => Name.simple name ≠ ""
  | .mergeMixin _ mixin _ => mixin.ComposedNames
  | .addMethod _ | .addField _ | .addConstructor _ => True

instance : DecidablePred Admissible
  | .nestedOrInsert inner _ _ => inferInstanceAs (Decidable (Name.IsSegment inner))
  | .rename name => inferInstanceAs (Decidable (Name.simple name ≠ ""))
  | .mergeMixin _ mixin _ => inferInstanceAs (Decidable mixin.ComposedNames)
  | .addMethod _ | .addField _ | .addConstructor _ => inferInstanceAs (Decidable True)

/-- Whether it adds a member. -/
def IsAddition : Mutation → Prop
  | .addMethod _ | .addField _ | .addConstructor _ => True
  | .nestedOrInsert _ _ _ | .rename _ | .mergeMixin _ _ _ => False

end Mutation

/-- The type after the change, and whether the change failed. -/
def mutate (t : TypeDef) : Mutation → TypeDef × Except Failure Unit
  | .addMethod m => t.addMethod m
  | .addField f => t.addField f
  | .addConstructor c => t.addConstructor c
  | .nestedOrInsert inner kind access => ((t.nestedOrInsert inner kind access).1, .ok ())
  | .rename name => (t.rename name, .ok ())
  | .mergeMixin interfaceName mixin outcome =>
    ((t.mergeMixin interfaceName mixin outcome).target, .ok ())

/-- The type after a run of changes, be it that some of them fail. -/
def mutateAll (t : TypeDef) (changes : List Mutation) : TypeDef :=
  changes.foldl (fun t change => (t.mutate change).1) t

theorem WellFormed.mutate {change : Mutation} (h : t.WellFormed) (hchange : change.Admissible) :
    (t.mutate change).1.WellFormed := by
  cases change with
  | addMethod m => exact h.addMethod m
  | addField f => exact h.addField f
  | addConstructor c => exact h.addConstructor c
  | nestedOrInsert inner kind access => exact h.nestedOrInsert hchange kind access
  | rename name => exact h.rename hchange
  | mergeMixin interfaceName mixin outcome =>
    dsimp only [TypeDef.mutate]
    rw [mergeMixin, Merge.merge_target]
    exact h.merged hchange interfaceName

/-- An addition leaves the type as it was and fails, or it succeeds and leaves a longer one. -/
theorem addition_cases (t : TypeDef) {change : Mutation} (hadds : change.IsAddition) :
    (∃ cause, t.mutate change = (t, .error cause)) ∨
      ∃ t', t.mutate change = (t', .ok ()) ∧ t' ≠ t := by
  have hlonger : ∀ {α : Type} {items : List α} {x : α}, items ++ [x] ≠ items := by simp
  cases change with
  | addMethod m =>
    refine (t.addMethod_cases m).imp_right fun hadded => ⟨_, hadded, fun hsame => ?_⟩
    exact hlonger (congrArg (·.methods) hsame)
  | addField f =>
    refine (t.addField_cases f).imp_right fun hadded => ⟨_, hadded, fun hsame => ?_⟩
    exact hlonger (congrArg (·.fields) hsame)
  | addConstructor c =>
    refine (t.addConstructor_cases c).imp_right fun hadded => ⟨_, hadded, fun hsame => ?_⟩
    exact hlonger (congrArg (·.constructors) hsame)
  | nestedOrInsert | rename | mergeMixin => exact hadds.elim

/-- **An addition fails** just if it leaves the type as it was. -/
theorem addition_fails_iff {change : Mutation} (hadds : change.IsAddition) :
    (∃ cause, (t.mutate change).2 = .error cause) ↔ (t.mutate change).1 = t := by
  rcases addition_cases t hadds with ⟨cause, hfails⟩ | ⟨t', hadded, hne⟩
  · simp [hfails]
  · simp [hadded, hne]

/-- **A well-formed type stays well formed**, whatever is done to it and in whatever order. The
members that are added, or that a mixin lends, may be repeated or have names that no member may
have: an addition then fails, and it fails just if it leaves the type as it was. -/
theorem wellFormed_mutateAll {changes : List Mutation} (h : t.WellFormed)
    (hchanges : ∀ change ∈ changes, change.Admissible) :
    (t.mutateAll changes).WellFormed ∧ ∀ (u : TypeDef) (change : Mutation), change.IsAddition →
      ((∃ cause, (u.mutate change).2 = .error cause) ↔ (u.mutate change).1 = u) := by
  refine ⟨?_, fun u change hadds => addition_fails_iff hadds⟩
  unfold TypeDef.mutateAll
  induction changes generalizing t with
  | nil => exact h
  | cons change changes ih =>
    obtain ⟨hchange, hchanges⟩ := List.forall_mem_cons.1 hchanges
    exact ih (h.mutate hchange) hchanges

/-- A constructor with one parameter of the given type. -/
def constructorWith (parameter : String) : Constructor :=
  ⟨⟨[.object parameter], .void⟩, publicAccess, none⟩

/-- A mixin with a field that no type may have, with two nested types of one name, and with two
constructors that are the same after rebinding, merged into a type that was renamed before. -/
theorem wellFormed_mutateAll_disorderly :
    let t : TypeDef :=
      { bare "b.T" .classType with nested := [bare "b.T$I" .enumType, bare "b.T$J" .classType] }
    let x : Field := ⟨"x", .int, publicAccess, none⟩
    let mixin : TypeDef :=
      { bare "a.M" .classType with
        fields := [{ x with name := "" }, x]
        constructors := [constructorWith "a.M", constructorWith "c.U"]
        nested := [bare "a.M$I" .classType, bare "a.M$I" .enumType] }
    let changes : List Mutation :=
      [.addField x, .addField x, .nestedOrInsert "K" .recordType 0, .rename "c.U",
        .mergeMixin "StringTypes" mixin .zero]
    t.WellFormed ∧ (∀ change ∈ changes, change.Admissible) ∧ (t.mutateAll changes).WellFormed ∧
      (t.mutateAll changes).constructors = [constructorWith "c.U"] ∧
      ((t.mutateAll changes).mutate (.addField x)).1 = t.mutateAll changes := by
  intro t x mixin changes
  have ht : t.WellFormed := by decide
  have hchanges : ∀ change ∈ changes, change.Admissible := by decide
  obtain ⟨hformed, hfails⟩ := wellFormed_mutateAll ht hchanges
  refine ⟨ht, hchanges, hformed, by decide, (hfails _ (.addField x) trivial).1 ?_⟩
  exact ⟨.duplicateMember "c.U" "x", by decide⟩

end TypeDef

end Mixins
