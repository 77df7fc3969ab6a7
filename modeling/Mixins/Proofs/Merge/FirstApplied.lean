import Mixins.Proofs.Merge.Sequence

/-!
# The mixin that is applied first wins

If a name ends where the descriptor begins, a method with a name of its own also has an identity of
its own, and only names decide which members a target admits. Under each name that the target does
not declare, it then takes over the first member that any of its mixins declares, and no other.

* `Method.name_eq_of_identity` — methods of one identity have one name.
* `FirstWins.ofGather` — gathering that looks at names only keeps the first item of each name.
* `mergeMixins_firstWins` — so does merging several mixins, at the end of each path.
-/

namespace Mixins

/-! ## Plain names -/

/-- Whether a member may have this name, and a method's identity shows where it ends. -/
def IsPlainName (name : String) : Prop := isMemberName name = true ∧ '(' ∉ name.toList

instance (name : String) : Decidable (IsPlainName name) := inferInstanceAs (Decidable (_ ∧ _))

theorem Method.takeWhile_identity {m : Method} (h : '(' ∉ m.name.toList) :
    m.identity.toList.takeWhile (· != '(') = m.name.toList := by
  have hname : ∀ c ∈ m.name.toList, (c != '(') = true := by
    intro c hc
    rw [bne_iff_ne]
    rintro rfl
    exact h hc
  rw [Method.identity, String.toList_append, List.takeWhile_append_of_pos hname,
    Signature.descriptor]
  simp

theorem Method.name_eq_of_identity {m m' : Method} (h : '(' ∉ m.name.toList)
    (h' : '(' ∉ m'.name.toList) (heq : m.identity = m'.identity) : m.name = m'.name := by
  rw [← String.toList_inj, ← takeWhile_identity h, heq, takeWhile_identity h']

theorem admitsMethod_iff {methods : List Method} {m : Method}
    (hmethods : ∀ x ∈ methods, IsPlainName x.name) (hm : IsPlainName m.name) :
    admitsMethod methods m = true ↔ m.name ∉ methods.map (·.name) :=
  admitsMethod_iff_of_identity hm.1 fun x hx => Method.name_eq_of_identity (hmethods x hx).2 hm.2

theorem admitsField_iff {fields : List Field} {f : Field} (hf : IsPlainName f.name) :
    admitsField fields f = true ↔ f.name ∉ fields.map (·.name) :=
  admitsField_iff_of_valid hf.1

/-- Whether all methods and fields, at every depth, have plain names. -/
structure TypeDef.PlainMembers (t : TypeDef) : Prop where
  methods : ∀ x ∈ t.types, ∀ m ∈ x.methods, IsPlainName m.name
  fields : ∀ x ∈ t.types, ∀ f ∈ x.fields, IsPlainName f.name

theorem TypeDef.plainMembers_iff {t : TypeDef} : t.PlainMembers ↔
    (∀ x ∈ t.types, ∀ m ∈ x.methods, IsPlainName m.name) ∧
      ∀ x ∈ t.types, ∀ f ∈ x.fields, IsPlainName f.name :=
  ⟨fun h => ⟨h.methods, h.fields⟩, fun h => ⟨h.1, h.2⟩⟩

instance (t : TypeDef) : Decidable t.PlainMembers :=
  decidable_of_iff _ TypeDef.plainMembers_iff.symm

/-! ## The first item of each name -/

/-- Whether `result` is `own` with the items of the lists in `lent` after it, in order, that are the
first under their key. -/
structure FirstWins {α : Type} (key : α → String) (own : List α) (lent : List (List α))
    (result : List α) : Prop where
  inOrder : result = own ++ firstOfEach key (own.map key) lent.flatten
  onlyFirst : ∀ name, name ∉ own.map key →
    result.filter (key · == name) = (lent.findSome? (·.find? (key · == name))).toList

theorem FirstWins.ofGather {α : Type} {admits : List α → α → Bool} {key : α → String}
    {plain : String → Prop}
    (hadmits : ∀ items x, (∀ y ∈ items, plain (key y)) → plain (key x) →
      (admits items x = true ↔ key x ∉ items.map key))
    {own : List α} {lent : List (List α)} (hown : ∀ y ∈ own, plain (key y))
    (hlent : ∀ xs ∈ lent, ∀ y ∈ xs, plain (key y)) :
    FirstWins key own lent (gather admits own lent.flatten) := by
  have heq : gather admits own lent.flatten =
      own ++ firstOfEach key (own.map key) lent.flatten := by
    refine gather_eq_append hadmits hown fun y hy => ?_
    obtain ⟨xs, hxs, hy⟩ := List.mem_flatten.1 hy
    exact hlent xs hxs y hy
  refine ⟨heq, fun name hname => ?_⟩
  have hnone : own.filter (key · == name) = [] := by
    rw [List.filter_eq_nil_iff]
    intro y hy hkey
    exact hname (List.mem_map.2 ⟨y, hy, beq_iff_eq.1 hkey⟩)
  rw [heq, List.filter_append, hnone, List.nil_append, filter_firstOfEach key hname,
    List.find?_flatten]

/-- As `ofGather`, for what types lend, each rebound from the type that lends it. -/
theorem FirstWins.ofTypes {α : Type} {admits : List α → α → Bool} {key : α → String}
    {plain : String → Prop}
    (hadmits : ∀ items x, (∀ y ∈ items, plain (key y)) → plain (key x) →
      (admits items x = true ↔ key x ∉ items.map key))
    (items : TypeDef → List α) (rebind : String → α → α)
    (hrebind : ∀ source x, key (rebind source x) = key x) {own : Option TypeDef}
    {lent : List TypeDef} (hown : ∀ t, own = some t → ∀ x ∈ items t, plain (key x))
    (hlent : ∀ t ∈ lent, ∀ x ∈ items t, plain (key x)) :
    FirstWins key (own.elim [] items) (lent.map fun t => (items t).map (rebind t.name))
      (gather admits (own.elim [] items)
        (lent.map fun t => (items t).map (rebind t.name)).flatten) := by
  refine .ofGather hadmits ?_ ?_
  · cases own with
    | none => exact fun _ h => nomatch h
    | some t => exact hown t rfl
  · intro xs hxs y hy
    obtain ⟨t, ht, rfl⟩ := List.mem_map.1 hxs
    obtain ⟨x, hx, rfl⟩ := List.mem_map.1 hy
    rw [hrebind]
    exact hlent t ht x hx

/-! ## Several mixins -/

namespace TypeDef

variable {interfaceName : String}

/-- What is found at the end of a path is plain if the tree is. -/
theorem PlainMembers.descendant? {path : List String} {t x : TypeDef} (h : t.PlainMembers)
    (hx : t.descendant? path = some x) :
    (∀ m ∈ x.methods, IsPlainName m.name) ∧ ∀ f ∈ x.fields, IsPlainName f.name :=
  ⟨h.methods x (descendant?_mem_types hx), h.fields x (descendant?_mem_types hx)⟩

/-- **First applied wins, at every depth.** At the end of a path there is a type just if there is
one in the target or in some mixin. It has the target's own members there, and after them, in the
order of the mixins, the first member under each name that the target does not declare there. -/
theorem mergeMixins_firstWins {target : TypeDef} {mixins : List TypeDef}
    (htarget : target.WellNamed) (hmixins : ∀ m ∈ mixins, m.WellNamed)
    (hdollar : '$' ∉ interfaceName.toList) (hname : target.simpleName ≠ interfaceName)
    (hplain : ∀ t ∈ target :: mixins, t.PlainMembers) (outcome : Outcome) (path : List String) :
    (((target.mergeMixins interfaceName mixins outcome).target.descendant? path).isSome ↔
      ∃ t ∈ target :: mixins, (t.descendant? path).isSome) ∧
    ∀ r, (target.mergeMixins interfaceName mixins outcome).target.descendant? path = some r →
      r.name = Name.below target.name path ∧
      FirstWins Method.name ((target.descendant? path).elim [] (·.methods))
        ((mixins.filterMap (·.descendant? path)).map fun m =>
          m.methods.map (·.rebind m.name r.name)) r.methods ∧
      FirstWins Field.name ((target.descendant? path).elim [] (·.fields))
        ((mixins.filterMap (·.descendant? path)).map fun m =>
          m.fields.map (·.rebind m.name r.name)) r.fields := by
  obtain ⟨htplain, hmplain⟩ := List.forall_mem_cons.1 hplain
  obtain ⟨hsome, hgathered⟩ := descendant?_mergeMixins htarget hmixins hdollar hname outcome path
  refine ⟨hsome, fun r hr => ?_⟩
  have hr := hgathered r hr
  have hlent : ∀ x ∈ mixins.filterMap (·.descendant? path),
      (∀ m ∈ x.methods, IsPlainName m.name) ∧ ∀ f ∈ x.fields, IsPlainName f.name := by
    intro x hx
    obtain ⟨m, hm, hx⟩ := List.mem_filterMap.1 hx
    exact (hmplain m hm).descendant? hx
  refine ⟨hr.name_eq, ?_, ?_⟩
  · have hmethods := hr.methods
    rw [List.flatMap_map, List.flatMap_def, ← hr.name_eq, Option.elim_map] at hmethods
    rw [hmethods]
    exact .ofTypes (fun _ _ => admitsMethod_iff) (·.methods)
      (fun source m => m.rebind source r.name) (fun _ _ => rfl)
      (fun _ hx => (htplain.descendant? hx).1) fun x hx => (hlent x hx).1
  · have hfields := hr.fields
    rw [List.flatMap_map, List.flatMap_def, ← hr.name_eq, Option.elim_map] at hfields
    rw [hfields]
    exact .ofTypes (fun _ _ _ => admitsField_iff) (·.fields)
      (fun source f => f.rebind source r.name) (fun _ _ => rfl)
      (fun _ hx => (htplain.descendant? hx).2) fun x hx => (hlent x hx).2

/-- A type whose methods return the type itself. -/
def returningItself (name : String) (methods : List String) (nested : List TypeDef) : TypeDef :=
  ⟨{ (bare name .classType).toDeclaration with
      methods := methods.map fun m => ⟨m, ⟨[], .object name⟩, publicAccess, none, none⟩ }, nested⟩

/-- Two mixins lend methods to `b.T` and to `b.T$P`, partly under the same names. -/
theorem mergeMixins_firstWins_twoMixins :
    let target := returningItself "b.T" ["x"] [returningItself "b.T$P" ["y"] []]
    let first := returningItself "a.M" ["x", "u"] [returningItself "a.M$P" ["z"] []]
    let second := returningItself "a.N" ["u"] [returningItself "a.N$P" ["z", "y", "w"] []]
    (target.WellNamed ∧ first.WellNamed ∧ second.WellNamed) ∧
    (∀ t ∈ [target, first, second], t.PlainMembers) ∧
    ((target.mergeMixins "StringTypes" [first, second] .zero).target.descendant? ["P"]).isSome ∧
    ∀ r,
      (target.mergeMixins "StringTypes" [first, second] .zero).target.descendant? ["P"] = some r →
      r.name = "b.T$P" ∧
      FirstWins Method.name (returningItself "b.T$P" ["y"] []).methods
        [(returningItself "a.M$P" ["z"] []).methods.map (·.rebind "a.M$P" r.name),
          (returningItself "a.N$P" ["z", "y", "w"] []).methods.map (·.rebind "a.N$P" r.name)]
        r.methods := by
  intro target first second
  have htarget : target.WellNamed := by decide
  have hmixins : ∀ m ∈ [first, second], m.WellNamed := by decide
  have hplain : ∀ t ∈ target :: [first, second], t.PlainMembers := by decide
  have hdollar : '$' ∉ "StringTypes".toList := by decide
  have hname : target.simpleName ≠ "StringTypes" := by decide
  obtain ⟨hsome, hall⟩ :=
    mergeMixins_firstWins htarget hmixins hdollar hname hplain .zero ["P"]
  refine ⟨⟨htarget, hmixins first (by simp), hmixins second (by simp)⟩, hplain, ?_, fun r hr => ?_⟩
  · exact hsome.2 ⟨target, by simp, by decide⟩
  · obtain ⟨hname, hmethods, _⟩ := hall r hr
    exact ⟨hname, hmethods⟩

end TypeDef

end Mixins
