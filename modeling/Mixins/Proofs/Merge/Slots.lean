import Mixins.Proofs.Merge.FirstApplied
import Mixins.Proofs.Slot

/-!
# Slots after a merge between types of one name

Variants of a type all have its name. A merge between them rebinds nothing, and if member names are
plain, every slot of the target and of the mixin is filled afterwards, and no other. The interface
of string types is the exception: it takes no nested type that one of its fields stands for, so that
of its fields and its nested types only the names taken together are all kept.

* `Declaration.mem_slots_absorb` — the slots of one declaration after a merge.
* `declares_merged` — the slots of a type that passes nothing over.
* `declares_nil_merged`, `declaresName_merged` — what is declared at the top of any type.
* `foldl_merged_iff` — what holds of one merge, carried over to several.
-/

namespace Mixins

/-! ## Members of types of one name -/

theorem ValueType.rebind_refl (v : ValueType) (source : String) : v.rebind source source = v := by
  induction v with
  | object name => rw [rebind, Name.rebind_refl]
  | array element ih => rw [rebind, ih]
  | void | bool | int | long | double | str => rfl

theorem Signature.rebind_refl (s : Signature) (source : String) : s.rebind source source = s := by
  have hparams : s.params.map (·.rebind source source) = s.params := by
    simp [ValueType.rebind_refl]
  rw [rebind, hparams, ValueType.rebind_refl]

/-- Each item's key is taken in the end, and no other key is. -/
theorem mem_map_firstOfEach {α : Type} (key : α → String) (taken : List String) (xs : List α)
    (k : String) :
    k ∈ taken ∨ k ∈ (firstOfEach key taken xs).map key ↔ k ∈ taken ∨ k ∈ xs.map key := by
  induction xs generalizing taken with
  | nil => rfl
  | cons x xs ih =>
    unfold firstOfEach
    by_cases hx : key x ∈ taken
    · rw [if_pos hx, ih, List.map_cons, List.mem_cons]
      constructor
      · exact fun h => h.imp_right .inr
      · rintro (h | rfl | h)
        · exact .inl h
        · exact .inl hx
        · exact .inr h
    · have hrest := ih (taken ++ [key x])
      rw [List.mem_append, List.mem_singleton, or_assoc, or_assoc] at hrest
      rw [if_neg hx, List.map_cons, List.map_cons, List.mem_cons, List.mem_cons]
      exact hrest

/-- Where an item is admitted just if no item has its key, every key is there in the end. -/
theorem mem_map_gather {α : Type} {admits : List α → α → Bool} {key : α → String}
    (plain : String → Prop)
    (hadmits : ∀ items x, (∀ y ∈ items, plain (key y)) → plain (key x) →
      (admits items x = true ↔ key x ∉ items.map key))
    {own lent : List α} (hown : ∀ y ∈ own, plain (key y)) (hlent : ∀ y ∈ lent, plain (key y))
    {k : String} :
    k ∈ (gather admits own lent).map key ↔ k ∈ own.map key ∨ k ∈ lent.map key := by
  rw [gather_eq_append hadmits hown hlent, List.map_append, List.mem_append, mem_map_firstOfEach]

theorem admitsConstructor_iff (constructors : List Constructor) (c : Constructor) :
    admitsConstructor constructors c = true ↔
      c.signature.descriptor ∉ constructors.map (·.signature.descriptor) := by
  have hidentity : ∀ x : Constructor,
      x.identity = c.identity ↔ x.signature.descriptor = c.signature.descriptor := by
    intro x
    rw [Constructor.identity, Constructor.identity, ← String.toList_inj, String.toList_append,
      String.toList_append, List.append_cancel_left_eq, String.toList_inj]
  simp [admitsConstructor, hidentity]

namespace Declaration

/-- Whether the methods and fields have plain names. -/
structure Plain (d : Declaration) : Prop where
  methods : ∀ m ∈ d.methods, IsPlainName m.name
  fields : ∀ f ∈ d.fields, IsPlainName f.name

variable {own lent : Declaration}

theorem Plain.rebound_methods (h : lent.Plain) (source destination : String) :
    ∀ m ∈ lent.methods.map (·.rebind source destination), IsPlainName m.name :=
  List.forall_mem_map.2 h.methods

theorem Plain.rebound_fields (h : lent.Plain) (source destination : String) :
    ∀ f ∈ lent.fields.map (·.rebind source destination), IsPlainName f.name :=
  List.forall_mem_map.2 h.fields

theorem Plain.absorb (hown : own.Plain) (hlent : lent.Plain) : (own.absorb lent).Plain := by
  refine ⟨fun m hm => ?_, fun f hf => ?_⟩
  · rcases mem_gather hm with hm | hm
    · exact hown.methods m hm
    · exact hlent.rebound_methods _ _ m hm
  · rcases mem_gather hf with hf | hf
    · exact hown.fields f hf
    · exact hlent.rebound_fields _ _ f hf

/-- **The slots of a declaration** that has absorbed one of the same name are those of both. -/
theorem mem_slots_absorb (hname : own.name = lent.name) (hown : own.Plain) (hlent : lent.Plain)
    {slot : Slot} : slot ∈ (own.absorb lent).slots ↔ slot ∈ own.slots ∨ slot ∈ lent.slots := by
  cases slot with
  | self => simp [self_mem_slots]
  | method name =>
    have hgather := mem_map_gather IsPlainName (fun _ _ => admitsMethod_iff) hown.methods
      (hlent.rebound_methods lent.name own.name) (k := name)
    rw [method_mem_slots, method_mem_slots, method_mem_slots, absorb, hgather, List.map_map]
    rfl
  | field name =>
    have hgather := mem_map_gather IsPlainName (fun _ _ _ => admitsField_iff) hown.fields
      (hlent.rebound_fields lent.name own.name) (k := name)
    rw [field_mem_slots, field_mem_slots, field_mem_slots, absorb, hgather, List.map_map]
    rfl
  | initializer descriptor =>
    have hgather := mem_map_gather (fun _ => True)
      (fun items x _ _ => admitsConstructor_iff items x) (k := descriptor)
      (fun c (_ : c ∈ own.constructors) => trivial)
      (fun c (_ : c ∈ lent.constructors.map (·.rebind lent.name own.name)) => trivial)
    have hsame : ∀ c : Constructor,
        (c.rebind lent.name own.name).signature.descriptor = c.signature.descriptor := by
      intro c
      rw [Constructor.rebind, hname, Signature.rebind_refl]
    rw [initializer_mem_slots, initializer_mem_slots, initializer_mem_slots, absorb, hgather,
      List.map_map]
    simp only [Function.comp_def, hsame]

end Declaration

/-! ## One mixin -/

namespace TypeDef

open Merge (hasField_eq_any standsAsField)

variable {interfaceName : String} {t m : TypeDef}

/-- Whether the type can be a variant of the type of that name: it has the name, and names of nested
types and members as they should be. -/
structure IsVariantOf (name : String) (t : TypeDef) : Prop where
  name_eq : t.name = name
  wellNamed : t.WellNamed
  plainMembers : t.PlainMembers

theorem isVariantOf_iff {name : String} :
    t.IsVariantOf name ↔ t.name = name ∧ t.WellNamed ∧ t.PlainMembers :=
  ⟨fun h => ⟨h.name_eq, h.wellNamed, h.plainMembers⟩, fun h => ⟨h.1, h.2.1, h.2.2⟩⟩

instance (name : String) (t : TypeDef) : Decidable (t.IsVariantOf name) :=
  decidable_of_iff _ isVariantOf_iff.symm

/-- What is declared at the end of a path in a variant. -/
theorem IsVariantOf.declaration {name : String} {d : Declaration} (h : t.IsVariantOf name)
    (path : List String) (hd : (t.descendant? path).map (·.toDeclaration) = some d) :
    d.name = Name.below name path ∧ d.Plain := by
  obtain ⟨x, hx, rfl⟩ := Option.map_eq_some_iff.1 hd
  obtain ⟨hmethods, hfields⟩ := h.plainMembers.descendant? hx
  exact ⟨h.name_eq ▸ h.wellNamed.name_of_descendant? hx, hmethods, hfields⟩

theorem plain_receive {name : String} {own lent : Option Declaration} {d : Declaration}
    (hown : ∀ o, own = some o → o.Plain) (hlent : ∀ l, lent = some l → l.Plain)
    (hd : Declaration.receive name own lent = some d) : d.Plain := by
  cases lent with
  | none => exact hown d hd
  | some l =>
    rw [Declaration.receive, Option.some.injEq] at hd
    rw [← hd]
    cases own with
    | some o => exact (hown o rfl).absorb (hlent l rfl)
    | none => exact .absorb ⟨List.forall_mem_nil _, List.forall_mem_nil _⟩ (hlent l rfl)

theorem mem_slots_receive {name : String} {own lent : Option Declaration} {slot : Slot}
    (hown : ∀ o, own = some o → o.name = name ∧ o.Plain)
    (hlent : ∀ l, lent = some l → l.name = name ∧ l.Plain) :
    (∃ d, Declaration.receive name own lent = some d ∧ slot ∈ d.slots) ↔
      (∃ o, own = some o ∧ slot ∈ o.slots) ∨ ∃ l, lent = some l ∧ slot ∈ l.slots := by
  cases lent with
  | none => simp [Declaration.receive]
  | some l =>
    obtain ⟨hl, hplain⟩ := hlent l rfl
    simp only [Declaration.receive, Option.some.injEq, exists_eq_left']
    cases own with
    | some o =>
      obtain ⟨ho, hoplain⟩ := hown o rfl
      simp only [Option.getD_some, Option.some.injEq, exists_eq_left']
      exact Declaration.mem_slots_absorb (ho.trans hl.symm) hoplain hplain
    | none =>
      let fresh : Declaration := { (bare name l.kind).toDeclaration with access := l.access }
      have hempty : fresh.Plain := ⟨by simp [fresh, bare], by simp [fresh, bare]⟩
      have hfresh : slot ∈ (fresh.absorb l).slots ↔ slot ∈ fresh.slots ∨ slot ∈ l.slots :=
        Declaration.mem_slots_absorb hl.symm hempty hplain
      -- a fresh type has no slot but the one for itself
      rw [Option.getD_none, hfresh]
      simp only [fresh, Declaration.slots, bare, List.map_nil, List.append_nil, List.mem_cons,
        List.not_mem_nil, reduceCtorEq, false_and, exists_false, or_false, false_or]
      tauto

theorem IsVariantOf.merged {name : String} (ht : t.IsVariantOf name) (hm : m.IsVariantOf name) :
    (t.merged interfaceName m).IsVariantOf name := by
  have hwell : (t.merged interfaceName m).WellNamed := ht.wellNamed.merged hm.wellNamed
  have hplain : ∀ x ∈ (t.merged interfaceName m).types, x.toDeclaration.Plain := by
    intro x hx
    obtain ⟨path, hpath⟩ := hwell.mem_types_iff.1 hx
    have hdecl : ((t.merged interfaceName m).descendant? path).map (·.toDeclaration) = _ :=
      descendant?_merged ht.wellNamed hm.wellNamed
    rw [hpath, Option.map_some] at hdecl
    refine plain_receive (fun o ho => (ht.declaration path ho).2) (fun l hl => ?_) hdecl.symm
    obtain ⟨y, hy, rfl⟩ := Option.map_eq_some_iff.1 hl
    exact (hm.declaration _ (by rw [descendant?_reached hy, Option.map_some])).2
  exact ⟨(merged_name t m).trans ht.name_eq, hwell,
    fun x hx => (hplain x hx).methods, fun x hx => (hplain x hx).fields⟩

/-- **The slots after a merge** into a type that passes nothing over. -/
theorem declares_merged {name : String} {path : List String} {slot : Slot}
    (ht : t.IsVariantOf name) (hm : m.IsVariantOf name) (hdollar : '$' ∉ interfaceName.toList)
    (hname : Name.simple name ≠ interfaceName) :
    (t.merged interfaceName m).Declares path slot ↔
      t.Declares path slot ∨ m.Declares path slot := by
  have hsimple : t.simpleName ≠ interfaceName := by
    rw [simpleName, ht.name_eq]
    exact hname
  rw [declares_iff, descendant?_merged ht.wellNamed hm.wellNamed,
    reached_eq_descendant? ht.wellNamed hm.wellNamed hdollar hsimple, ht.name_eq, declares_iff,
    declares_iff]
  exact mem_slots_receive (fun _ => ht.declaration path) fun _ => hm.declaration path

/-- The slots at the top do not depend on nested types. -/
theorem declares_nil_merged {name : String} {slot : Slot} (ht : t.IsVariantOf name)
    (hm : m.IsVariantOf name) :
    (t.merged interfaceName m).Declares [] slot ↔ t.Declares [] slot ∨ m.Declares [] slot := by
  have hroot : ∀ x : TypeDef, x.IsVariantOf name → x.toDeclaration.Plain :=
    fun x hx => (hx.declaration [] rfl).2
  rw [declares_nil, declares_nil, declares_nil, merged_declaration]
  exact Declaration.mem_slots_absorb (ht.name_eq.trans hm.name_eq.symm) (hroot t ht) (hroot m hm)

/-- Whether a field or a nested type at the top has the name. -/
def DeclaresName (t : TypeDef) (name : String) : Prop :=
  t.Declares [] (.field name) ∨ t.Declares [name] .self

theorem hasField_iff_declares {name : String} : t.hasField name ↔ t.Declares [] (.field name) := by
  rw [declares_nil, Declaration.field_mem_slots, hasField_eq_any]
  simp

theorem declares_singleton_self {name : String} :
    t.Declares [name] .self ↔ (t.nestedType? name).isSome := by
  rw [declares_self, descendant?]
  cases t.nestedType? name <;> simp [descendant?]

theorem declaresName_iff {name : String} :
    t.DeclaresName name ↔ t.hasField name = true ∨ (t.nestedType? name).isSome = true := by
  rw [DeclaresName, ← hasField_iff_declares, declares_singleton_self]

instance (t : TypeDef) (name : String) : Decidable (t.DeclaresName name) :=
  decidable_of_iff _ declaresName_iff.symm

/-- **The names of fields and nested types after a merge** into the interface of string types. A
nested type that is passed over leaves its name to a field, if that is the field it is passed over
for: what follows the first dollar sign in the simple name of the nested type is its name, unless
there is one in the simple name of the interface. -/
theorem declaresName_merged {name x : String} (ht : t.IsVariantOf name) (hm : m.IsVariantOf name)
    (hguard : '$' ∉ (Name.simple name).toList ∨
      t.hasField (Name.withoutOuter (Name.nested (Name.simple name) x)) = false) :
    (t.merged interfaceName m).DeclaresName x ↔ t.DeclaresName x ∨ m.DeclaresName x := by
  have hfields : (t.merged interfaceName m).Declares [] (.field x) ↔ _ := declares_nil_merged ht hm
  have hnested : (t.merged interfaceName m).nestedType? x = _ :=
    nestedType?_merged ht.wellNamed hm.wellNamed x
  simp only [DeclaresName, declares_singleton_self, hfields, hnested]
  cases hfind : m.nestedType? x with
  | none =>
    simp only [Option.isSome_none, Bool.false_eq_true, or_false]
    tauto
  | some n =>
    obtain ⟨hn, rfl⟩ := nestedType?_some hfind
    have hsimple : n.simpleName = Name.nested (Name.simple name) n.innerName := by
      rw [hm.wellNamed.simpleName_branch hn, simpleName, hm.name_eq]
    have hstands : standsAsField interfaceName t n = true → t.Declares [] (.field n.innerName) := by
      rw [standsAsField, hsimple, Bool.and_eq_true]
      rintro ⟨-, hfield⟩
      rcases hguard with hdollar | hnone
      · rwa [Name.withoutOuter_nested hdollar, hasField_iff_declares] at hfield
      · rw [hnone] at hfield
        exact absurd hfield Bool.false_ne_true
    by_cases h : standsAsField interfaceName t n = true
    · have := hstands h
      simp only [h, if_true]
      tauto
    · simp only [h]
      simp

/-! ## Several mixins -/

/-- What a merge makes hold just if it holds of the target or the mixin, several merges make hold
just if it holds of one of the types. -/
theorem foldl_merged_iff {fits holds : TypeDef → Prop}
    (hclosed : ∀ t m, fits t → fits m → fits (t.merged interfaceName m))
    (hstep : ∀ t m, fits t → fits m → (holds (t.merged interfaceName m) ↔ holds t ∨ holds m))
    {mixins : List TypeDef} (hfits : ∀ x ∈ t :: mixins, fits x) :
    holds (mixins.foldl (TypeDef.merged interfaceName) t) ↔ ∃ x ∈ t :: mixins, holds x := by
  induction mixins generalizing t with
  | nil => simp
  | cons m mixins ih =>
    obtain ⟨ht, hfits⟩ := List.forall_mem_cons.1 hfits
    obtain ⟨hm, hmixins⟩ := List.forall_mem_cons.1 hfits
    have hrest := ih (List.forall_mem_cons.2 ⟨hclosed t m ht hm, hmixins⟩)
    rw [List.foldl_cons, hrest]
    simp only [List.mem_cons, exists_eq_or_imp, hstep t m ht hm, or_assoc]

end TypeDef

end Mixins
