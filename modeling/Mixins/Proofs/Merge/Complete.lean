import Mathlib.Data.List.Dedup
import Mixins.Proofs.Merge.Accounting
import Mixins.Proofs.Merge.FirstApplied
import Mixins.Proofs.Merge.Slots

/-!
# Mixins that are new to their target

If nothing that a mixin declares is in its target yet, all of it is taken over, with one exception:
methods of one name share a slot, so that of the overloads in the mixin itself only the first is
added and the others are ignored.

* `length_gather` — where all keys are new, as many items are gathered as there are keys.
* `mergeMembers_complete` — what is counted when members are new to a type.
* `mergeMixin_complete` — what is counted when a mixin without nested types is new to its target.
* `mergeMixin_overloads` — overloads, and names that hide where the descriptor begins.
-/

namespace Mixins

/-! ## Counting what is gathered -/

theorem nodup_map_firstOfEach {α : Type} (key : α → String) (taken : List String) (xs : List α) :
    ((firstOfEach key taken xs).map key).Nodup := by
  induction xs generalizing taken with
  | nil => exact .nil
  | cons x xs ih =>
    unfold firstOfEach
    split
    · exact ih taken
    · rw [List.map_cons, List.nodup_cons]
      refine ⟨fun hmem => ?_, ih _⟩
      obtain ⟨y, hy, hkey⟩ := List.mem_map.1 hmem
      exact key_not_mem_of_mem_firstOfEach hy (by simp [hkey])

theorem length_firstOfEach {α : Type} {key : α → String} {taken : List String} {xs : List α}
    (hnew : ∀ x ∈ xs, key x ∉ taken) :
    (firstOfEach key taken xs).length = (xs.map key).dedup.length := by
  have hmem : ∀ k, k ∈ (firstOfEach key taken xs).map key ↔ k ∈ (xs.map key).dedup := by
    intro k
    rw [List.mem_dedup]
    by_cases hk : k ∈ taken
    · have hfirst : k ∉ (firstOfEach key taken xs).map key := by
        intro hmem
        obtain ⟨y, hy, rfl⟩ := List.mem_map.1 hmem
        exact key_not_mem_of_mem_firstOfEach hy hk
      have hall : k ∉ xs.map key := by
        intro hmem
        obtain ⟨y, hy, rfl⟩ := List.mem_map.1 hmem
        exact hnew y hy hk
      exact iff_of_false hfirst hall
    · simpa [hk] using mem_map_firstOfEach key taken xs k
  have hperm := (List.perm_ext_iff_of_nodup (nodup_map_firstOfEach key taken xs)
    (List.nodup_dedup _)).2 hmem
  rw [← hperm.length_eq, List.length_map]

/-- **Where all keys are new**, as many items are gathered as there are keys. -/
theorem length_gather {α : Type} {admits : List α → α → Bool} {key : α → String}
    {own lent : List α} (hadmits : ∀ items x, items ⊆ own ++ lent → x ∈ lent →
      (admits items x = true ↔ key x ∉ items.map key))
    (hnew : ∀ x ∈ lent, key x ∉ own.map key) :
    (gather admits own lent).length = own.length + (lent.map key).dedup.length := by
  rw [gather_eq_append_of hadmits, List.length_append, length_firstOfEach hnew]

namespace Declaration

/-- Whether nothing that is lent is in `own`, and the names are such that names tell the members
apart. -/
structure IsNewTo (lent own : Declaration) : Prop where
  validMethods : ∀ m ∈ lent.methods, isMemberName m.name = true
  validFields : ∀ f ∈ lent.fields, isMemberName f.name = true
  newMethods : ∀ m ∈ lent.methods, m.name ∉ own.methods.map (·.name)
  newFields : ∀ f ∈ lent.fields, f.name ∉ own.fields.map (·.name)
  newConstructors : ∀ c ∈ lent.constructors.map (·.rebind lent.name own.name),
    c.signature.descriptor ∉ own.constructors.map (·.signature.descriptor)
  distinctFields : (lent.fields.map (·.name)).Nodup
  distinctConstructors : ((lent.constructors.map (·.rebind lent.name own.name)).map
    (·.signature.descriptor)).Nodup
  identities : ∀ m ∈ lent.methods.map (·.rebind lent.name own.name),
    ∀ m' ∈ own.methods ++ lent.methods.map (·.rebind lent.name own.name),
      m'.identity = m.identity → m'.name = m.name

variable {own lent : Declaration}

/-- Where each identity shows where the name ends, methods of one identity have one name. -/
theorem name_eq_of_identity (hown : ∀ m ∈ own.methods, '(' ∉ m.name.toList)
    (hlent : ∀ m ∈ lent.methods, '(' ∉ m.name.toList) :
    ∀ m ∈ lent.methods.map (·.rebind lent.name own.name),
      ∀ m' ∈ own.methods ++ lent.methods.map (·.rebind lent.name own.name),
        m'.identity = m.identity → m'.name = m.name := by
  have hrebound : ∀ m ∈ lent.methods.map (·.rebind lent.name own.name), '(' ∉ m.name.toList :=
    List.forall_mem_map.2 hlent
  intro m hm m' hm'
  refine Method.name_eq_of_identity ?_ (hrebound m hm)
  exact (List.mem_append.1 hm').elim (hown m') (hrebound m')

theorem IsNewTo.length_methods (h : lent.IsNewTo own) :
    (own.absorb lent).methods.length =
      own.methods.length + (lent.methods.map (·.name)).dedup.length := by
  have hvalid : ∀ m ∈ lent.methods.map (·.rebind lent.name own.name),
      isMemberName m.name = true := List.forall_mem_map.2 h.validMethods
  have hnew : ∀ m ∈ lent.methods.map (·.rebind lent.name own.name),
      m.name ∉ own.methods.map (·.name) := List.forall_mem_map.2 h.newMethods
  have hlength := length_gather (fun items m hitems hm =>
    admitsMethod_iff_of_identity (hvalid m hm) fun x hx => h.identities m hm x (hitems hx)) hnew
  rw [List.map_map] at hlength
  exact hlength

theorem IsNewTo.length_fields (h : lent.IsNewTo own) :
    (own.absorb lent).fields.length = own.fields.length + lent.fields.length := by
  have hvalid : ∀ f ∈ lent.fields.map (·.rebind lent.name own.name),
      isMemberName f.name = true := List.forall_mem_map.2 h.validFields
  have hnew : ∀ f ∈ lent.fields.map (·.rebind lent.name own.name),
      f.name ∉ own.fields.map (·.name) := List.forall_mem_map.2 h.newFields
  have hdistinct : ((lent.fields.map (·.rebind lent.name own.name)).map (·.name)).Nodup := by
    rw [List.map_map]
    exact h.distinctFields
  have hlength :=
    length_gather (fun items f _ hf => admitsField_iff_of_valid (hvalid f hf)) hnew
  rw [hdistinct.dedup, List.length_map, List.length_map] at hlength
  exact hlength

theorem IsNewTo.length_constructors (h : lent.IsNewTo own) :
    (own.absorb lent).constructors.length = own.constructors.length + lent.constructors.length := by
  have hlength := length_gather (fun items c _ _ => admitsConstructor_iff items c) h.newConstructors
  rw [h.distinctConstructors.dedup, List.length_map, List.length_map] at hlength
  exact hlength

/-- What is absorbed are all members but for the overloads. -/
theorem IsNewTo.memberCount_absorb {t : TypeDef} (h : lent.IsNewTo t.toDeclaration) :
    TypeDef.memberCount ⟨t.toDeclaration.absorb lent, t.nested⟩ = t.memberCount +
      ((lent.methods.map (·.name)).dedup.length + lent.fields.length +
        lent.constructors.length) := by
  have hmethods := h.length_methods
  have hfields := h.length_fields
  have hconstructors := h.length_constructors
  unfold TypeDef.memberCount
  dsimp only at hmethods hfields hconstructors ⊢
  omega

end Declaration

/-! ## Counting what is added and what fails -/

namespace Merge

open TypeDef

/-- Merging members counts as added what the type gains. -/
theorem mergeMembers_added (d : Declaration) (p : Progress) :
    (p.mergeMembers d).outcome.added + p.target.memberCount =
      p.outcome.added + (p.mergeMembers d).target.memberCount := by
  have hsize := Changes.size (mergeMembers_changes d p)
  have hnested : (p.mergeMembers d).target.nested = p.target.nested := by
    rw [mergeMembers_target]
  rw [size_eq, size_eq (p.mergeMembers d).target, hnested] at hsize
  omega

theorem foldl_failed {α : Type} {step : Progress → α → Progress} {items : List α}
    (h : ∀ p, ∀ x ∈ items, (step p x).outcome.failed = p.outcome.failed) (p : Progress) :
    (items.foldl step p).outcome.failed = p.outcome.failed := by
  induction items generalizing p with
  | nil => rfl
  | cons x items ih =>
    rw [List.foldl_cons, ih fun p y hy => h p y (List.mem_cons_of_mem x hy)]
    exact h p x List.mem_cons_self

theorem mergeMethod_failed {m : Method} (h : isMemberName m.name = true) (owner : String)
    (p : Progress) : (p.mergeMethod owner m).outcome.failed = p.outcome.failed := by
  have hname : isMemberName (m.rebind owner p.target.name).name = true := h
  rw [Progress.mergeMethod, addMethod_eq, if_pos hname]
  split
  · rfl
  · split <;> rfl

theorem mergeField_failed {f : Field} (h : isMemberName f.name = true) (owner : String)
    (p : Progress) : (p.mergeField owner f).outcome.failed = p.outcome.failed := by
  have hname : isMemberName (f.rebind owner p.target.name).name = true := h
  rw [Progress.mergeField, addField_eq, if_pos hname]
  split
  · rfl
  · split <;> rfl

theorem mergeConstructor_failed (owner : String) (p : Progress) (c : Constructor) :
    (p.mergeConstructor owner c).outcome.failed = p.outcome.failed := by
  rw [Progress.mergeConstructor, addConstructor]
  split <;> rfl

/-- **No member fails** that has a name that members may have. -/
theorem mergeMembers_failed {d : Declaration}
    (hmethods : ∀ m ∈ d.methods, isMemberName m.name = true)
    (hfields : ∀ f ∈ d.fields, isMemberName f.name = true) (p : Progress) :
    (p.mergeMembers d).outcome.failed = p.outcome.failed := by
  rw [Progress.mergeMembers, foldl_failed fun p c _ => mergeConstructor_failed d.name p c,
    foldl_failed fun p f hf => mergeField_failed (hfields f hf) d.name p,
    foldl_failed fun p m hm => mergeMethod_failed (hmethods m hm) d.name p]

/-- **Members that are new to the type** are all added, but for the overloads among them, which are
ignored. -/
theorem mergeMembers_complete {d : Declaration} {p : Progress}
    (hnew : d.IsNewTo p.target.toDeclaration) :
    (p.mergeMembers d).outcome = p.outcome.add
      ⟨(d.methods.map (·.name)).dedup.length + d.fields.length + d.constructors.length,
        d.methods.length - (d.methods.map (·.name)).dedup.length, 0⟩ := by
  have hadded := mergeMembers_added d p
  have hcounted := mergeMembers_counted d p
  have hfailed := mergeMembers_failed hnew.validMethods hnew.validFields p
  rw [mergeMembers_target, hnew.memberCount_absorb] at hadded
  have hle : (d.methods.map (·.name)).dedup.length ≤ d.methods.length := by
    rw [← List.length_map (f := Method.name)]
    exact (List.dedup_sublist _).length_le
  -- each member counts as added, ignored or failed, so what is ignored is what is left
  generalize (p.mergeMembers d).outcome = result at hadded hcounted hfailed ⊢
  obtain ⟨added, ignored, failed⟩ := result
  dsimp only [Outcome.counted] at hadded hcounted hfailed
  simp only [Outcome.add, Outcome.mk.injEq]
  omega

end Merge

/-! ## A mixin without nested types -/

namespace TypeDef

open Merge

/-- **A mixin that is new to its target** is taken over as a whole, but for the overloads of methods
that it declares: of each name the first method is added, and the others are ignored. Nothing
fails. -/
theorem mergeMixin_complete (interfaceName : String) {target mixin : TypeDef}
    (hnested : mixin.nested = []) (hnew : mixin.IsNewTo target.toDeclaration) (outcome : Outcome) :
    let names := (mixin.methods.map (·.name)).dedup
    (target.mergeMixin interfaceName mixin outcome).outcome =
      outcome.add ⟨names.length + mixin.fields.length + mixin.constructors.length,
        mixin.methods.length - names.length, 0⟩ := by
  intro names
  obtain ⟨d, nested⟩ := mixin
  obtain rfl : nested = [] := hnested
  have hmerge : target.mergeMixin interfaceName ⟨d, []⟩ outcome =
      Progress.mergeMembers d ⟨target, outcome⟩ := by
    rw [mergeMixin, merge, mergeNested]
  rw [hmerge]
  exact mergeMembers_complete hnew

/-- A public method without a body. -/
def declaring (name : String) (params : List ValueType) (ret : ValueType) : Method :=
  ⟨name, ⟨params, ret⟩, publicAccess, none, none⟩

/-- A class with overloads, fields and constructors, of which one takes the class itself. -/
def severalMembers : TypeDef :=
  { bare "a.M" .classType with
    methods := [declaring "f" [] .void, declaring "g" [.object "a.M"] .void,
      declaring "f" [.int] (.object "a.M")]
    fields := [⟨"x", .int, publicAccess, none⟩, ⟨"f", .object "a.M", publicAccess, none⟩]
    constructors := [⟨⟨[], .void⟩, publicAccess, none⟩,
      ⟨⟨[.object "a.M"], .void⟩, publicAccess, none⟩] }

/-- A class without any of these members. -/
def otherMembers : TypeDef :=
  { bare "b.T" .classType with
    methods := [declaring "h" [] .void]
    constructors := [⟨⟨[.object "a.M"], .void⟩, publicAccess, none⟩] }

/-- One of the two overloads is ignored, and the constructor that takes the class itself becomes
another one than the target's. -/
theorem mergeMixin_complete_severalMembers :
    severalMembers.nested = [] ∧ severalMembers.IsNewTo otherMembers.toDeclaration ∧
    (otherMembers.mergeMixin "StringTypes" severalMembers .zero).outcome = ⟨6, 1, 0⟩ := by
  have hnew : severalMembers.IsNewTo otherMembers.toDeclaration := {
    validMethods := by decide
    validFields := by decide
    newMethods := by decide
    newFields := by decide
    newConstructors := by decide
    distinctFields := by decide
    distinctConstructors := by decide
    identities := Declaration.name_eq_of_identity (by decide) (by decide) }
  have houtcome := mergeMixin_complete "StringTypes" rfl hnew .zero
  exact ⟨rfl, hnew, houtcome.trans (by decide)⟩

/-- Two methods of distinct identity of which one is ignored, since they have one name; and a method
of a new name that is ignored, since its identity is that of another name and descriptor. -/
theorem mergeMixin_overloads :
    let target := bare "b.T" .classType
    let mixin := { bare "a.M" .classType with
      methods := [declaring "f" [] .void, declaring "f" [.int] .void] }
    let target' := { bare "b.T" .classType with methods := [declaring "f" [] (.object "g()void")] }
    let mixin' := { bare "a.M" .classType with methods := [declaring "f()g" [] .void] }
    (mixin.nested = [] ∧ (mixin.methods.map (·.identity)).Nodup ∧
      (∀ m ∈ mixin.methods, isMemberName m.name = true ∧ target.hasMethod m.name = false) ∧
      mixin.memberCount = 2 ∧
      (target.mergeMixin "StringTypes" mixin .zero).outcome = ⟨1, 1, 0⟩) ∧
    mixin'.nested = [] ∧ (mixin'.methods.map (·.identity)).Nodup ∧
      (∀ m ∈ mixin'.methods, isMemberName m.name = true ∧ target'.hasMethod m.name = false) ∧
      mixin'.memberCount = 1 ∧
      (target'.mergeMixin "StringTypes" mixin' .zero).outcome = ⟨0, 1, 0⟩ := by
  decide +kernel

end TypeDef

end Mixins
