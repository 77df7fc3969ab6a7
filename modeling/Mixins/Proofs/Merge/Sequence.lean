import Mixins.Proofs.Merge.Level

/-!
# Several mixins, one after the other

* `Gathered.ofReceive` — what a declaration is after it has received what several mixins lend it.
* `WellNamed.mergeMixins` — a well-named target stays well named.
* `descendant?_mergeMixins` — at the end of a path the mixins lend, one after the other, what they
  declare there; no other part of them has a say.
-/

namespace Mixins

open TypeDef Merge

variable {interfaceName : String}

/-- The target with the mixins merged into it one after the other. -/
def TypeDef.mergeMixins (interfaceName : String) (target : TypeDef) (mixins : List TypeDef)
    (outcome : Outcome) : Progress :=
  mixins.foldl (fun p m => p.target.mergeMixin interfaceName m p.outcome) ⟨target, outcome⟩

theorem TypeDef.mergeMixins_target (target : TypeDef) (mixins : List TypeDef) (outcome : Outcome) :
    (target.mergeMixins interfaceName mixins outcome).target =
      mixins.foldl (merged interfaceName) target := by
  unfold mergeMixins
  induction mixins generalizing target outcome with
  | nil => rfl
  | cons m mixins ih =>
    rw [List.foldl_cons, List.foldl_cons]
    have hm : (target.mergeMixin interfaceName m outcome).target =
        target.merged interfaceName m := merge_target m ⟨target, outcome⟩
    rw [← hm]
    exact ih _ _

/-! ## Declarations -/

/-- What is declared under `name` after each of the declarations in `lent` has been absorbed by what
was declared there before, if anything. -/
structure Declaration.Gathered (name : String) (own : Option Declaration)
    (lent : List Declaration) (result : Declaration) : Prop where
  name_eq : result.name = name
  methods : result.methods = gather admitsMethod (own.elim [] (·.methods))
    (lent.flatMap fun d => d.methods.map (·.rebind d.name name))
  fields : result.fields = gather admitsField (own.elim [] (·.fields))
    (lent.flatMap fun d => d.fields.map (·.rebind d.name name))
  constructors : result.constructors = gather admitsConstructor (own.elim [] (·.constructors))
    (lent.flatMap fun d => d.constructors.map (·.rebind d.name name))

/-- What is declared under `name` after one declaration has been lent to it. -/
theorem Declaration.Gathered.one {name : String} {own : Option Declaration} {d : Declaration}
    (hown : ∀ o, own = some o → o.name = name) :
    ∃ result, Declaration.receive name own (some d) = some result ∧
      Declaration.Gathered name own [d] result := by
  cases own with
  | none =>
    refine ⟨_, rfl, rfl, ?_, ?_, ?_⟩ <;> simp [Declaration.absorb, bare]
  | some o =>
    have hname := hown o rfl
    refine ⟨_, rfl, hname, ?_, ?_, ?_⟩ <;> simp [Declaration.absorb, hname]

theorem Declaration.Gathered.trans {name : String} {own : Option Declaration}
    {lent lent' : List Declaration} {d d' : Declaration}
    (h : Declaration.Gathered name own lent d)
    (h' : Declaration.Gathered name (some d) lent' d') :
    Declaration.Gathered name own (lent ++ lent') d' where
  name_eq := h'.name_eq
  methods := by
    rw [h'.methods, Option.elim_some, h.methods, List.flatMap_append, gather_append]
  fields := by
    rw [h'.fields, Option.elim_some, h.fields, List.flatMap_append, gather_append]
  constructors := by
    rw [h'.constructors, Option.elim_some, h.constructors, List.flatMap_append, gather_append]

theorem Declaration.Gathered.refl {name : String} {d : Declaration} (h : d.name = name) :
    Declaration.Gathered name (some d) [] d :=
  ⟨h, rfl, rfl, rfl⟩

/-- There is a declaration in the end just if there was one or one was lent, and it is what was
there with all that was lent. -/
theorem Declaration.Gathered.ofReceive {name : String} {own : Option Declaration}
    (hown : ∀ o, own = some o → o.name = name) (lent : List (Option Declaration)) :
    ((lent.foldl (Declaration.receive name) own).isSome ↔
        own.isSome ∨ lent.filterMap id ≠ []) ∧
      ∀ result, lent.foldl (Declaration.receive name) own = some result →
        Declaration.Gathered name own (lent.filterMap id) result := by
  induction lent generalizing own with
  | nil =>
    refine ⟨by simp, fun result h => ?_⟩
    rw [List.foldl_nil] at h
    rw [h]
    exact .refl (hown result h)
  | cons first lent ih =>
    rw [List.foldl_cons]
    cases first with
    | none => exact ih hown
    | some d =>
      obtain ⟨o, ho, hone⟩ := Gathered.one (d := d) hown
      rw [ho]
      have hname : ∀ o', some o = some o' → o'.name = name := by
        rintro _ ⟨⟩
        exact hone.name_eq
      obtain ⟨hsome, hall⟩ := ih hname
      refine ⟨by simp [hsome], fun result h => ?_⟩
      exact hone.trans (hall result h)

/-! ## Types -/

namespace TypeDef

theorem WellNamed.foldl_merged {t : TypeDef} {mixins : List TypeDef} (ht : t.WellNamed)
    (hmixins : ∀ m ∈ mixins, m.WellNamed) :
    (mixins.foldl (TypeDef.merged interfaceName) t).WellNamed := by
  induction mixins generalizing t with
  | nil => exact ht
  | cons m mixins ih =>
    obtain ⟨hm, hmixins⟩ := List.forall_mem_cons.1 hmixins
    exact ih (ht.merged hm) hmixins

theorem descendant?_foldl_merged {path : List String} {t : TypeDef} {mixins : List TypeDef}
    (ht : t.WellNamed) (hmixins : ∀ m ∈ mixins, m.WellNamed)
    (hdollar : '$' ∉ interfaceName.toList) (hname : t.simpleName ≠ interfaceName) :
    ((mixins.foldl (merged interfaceName) t).descendant? path).map (·.toDeclaration) =
      (mixins.map fun m => (m.descendant? path).map (·.toDeclaration)).foldl
        (Declaration.receive (Name.below t.name path))
        ((t.descendant? path).map (·.toDeclaration)) := by
  induction mixins generalizing t with
  | nil => rfl
  | cons m mixins ih =>
    obtain ⟨hm, hmixins⟩ := List.forall_mem_cons.1 hmixins
    have hsimple : (t.merged interfaceName m).simpleName ≠ interfaceName := by
      rw [simpleName, merged_name]
      exact hname
    rw [List.foldl_cons, ih (ht.merged hm) hmixins hsimple, merged_name,
      descendant?_merged ht hm, reached_eq_descendant? ht hm hdollar hname, List.map_cons,
      List.foldl_cons]

/-- **A well-named target stays well named** when well-named mixins are merged into it. -/
theorem WellNamed.mergeMixins {t : TypeDef} {mixins : List TypeDef} (ht : t.WellNamed)
    (hmixins : ∀ m ∈ mixins, m.WellNamed) (outcome : Outcome) :
    (t.mergeMixins interfaceName mixins outcome).target.WellNamed := by
  rw [mergeMixins_target]
  exact ht.foldl_merged hmixins

/-- **The end of a path** after several mixins have been merged into a target that passes nothing
over. There is a type just if there was one or some mixin has one, and it declares what the target
declared there with what the mixins lend it. -/
theorem descendant?_mergeMixins {t : TypeDef} {mixins : List TypeDef} (ht : t.WellNamed)
    (hmixins : ∀ m ∈ mixins, m.WellNamed) (hdollar : '$' ∉ interfaceName.toList)
    (hname : t.simpleName ≠ interfaceName) (outcome : Outcome) (path : List String) :
    (((t.mergeMixins interfaceName mixins outcome).target.descendant? path).isSome ↔
      ∃ x ∈ t :: mixins, (x.descendant? path).isSome) ∧
    ∀ r, (t.mergeMixins interfaceName mixins outcome).target.descendant? path = some r →
      Declaration.Gathered (Name.below t.name path)
        ((t.descendant? path).map (·.toDeclaration))
        ((mixins.filterMap (·.descendant? path)).map (·.toDeclaration)) r.toDeclaration := by
  have hown : ∀ o, (t.descendant? path).map (·.toDeclaration) = some o →
      o.name = Name.below t.name path := by
    intro o ho
    obtain ⟨x, hx, rfl⟩ := Option.map_eq_some_iff.1 ho
    exact ht.name_of_descendant? hx
  have hlent : (mixins.map fun m => (m.descendant? path).map (·.toDeclaration)).filterMap id =
      (mixins.filterMap (·.descendant? path)).map (·.toDeclaration) := by
    rw [List.filterMap_map, List.map_filterMap]
    rfl
  obtain ⟨hsome, hgathered⟩ := Declaration.Gathered.ofReceive hown
    (mixins.map fun m => (m.descendant? path).map (·.toDeclaration))
  rw [← descendant?_foldl_merged ht hmixins hdollar hname, ← mergeMixins_target t mixins outcome]
    at hsome hgathered
  rw [hlent] at hsome hgathered
  refine ⟨?_, fun r hr => hgathered _ (by rw [hr]; rfl)⟩
  rw [Option.isSome_map, Option.isSome_map] at hsome
  rw [hsome]
  simp [← Option.isSome_iff_ne_none]

end TypeDef

end Mixins
