import Mixins.Merge

/-!
# The members that a target takes over

Merging the members of a mixin gathers them: they are gone through in order, and each one that the
list as it stands admits is put last. A method is admitted if it has a name that a member may have
and no method has its name or its identity; a field if it has such a name and no field has it; a
constructor if no constructor has its identity.

* `mergeMembers_target` — merging the members of a mixin makes the target's declaration `absorb` the
  mixin's, and leaves the nested types alone.
* `mem_gather` — every member afterwards was there before or is lent by the mixin.
* `gather_eq_append` — where only the name decides, a name goes to the first member that has it.
-/

namespace Mixins

/-! ## Gathering -/

/-- Goes through `lent` and puts each item last that the list as it stands admits. -/
def gather {α : Type} (admits : List α → α → Bool) (own lent : List α) : List α :=
  lent.foldl (fun items x => if admits items x then items ++ [x] else items) own

theorem gather_cons {α : Type} (admits : List α → α → Bool) (own : List α) (x : α)
    (lent : List α) : gather admits own (x :: lent) =
      gather admits (if admits own x then own ++ [x] else own) lent := rfl

theorem gather_append {α : Type} (admits : List α → α → Bool) (own xs ys : List α) :
    gather admits own (xs ++ ys) = gather admits (gather admits own xs) ys :=
  List.foldl_append

theorem mem_gather {α : Type} {admits : List α → α → Bool} {own lent : List α} {x : α}
    (h : x ∈ gather admits own lent) : x ∈ own ∨ x ∈ lent := by
  induction lent generalizing own with
  | nil => exact .inl h
  | cons y lent ih =>
    rw [gather_cons] at h
    rcases ih h with hown | hlent
    · split at hown
      · rcases List.mem_append.1 hown with hown | hy
        · exact .inl hown
        · exact .inr (List.mem_cons.2 (.inl (List.mem_singleton.1 hy)))
      · exact .inl hown
    · exact .inr (List.mem_cons_of_mem y hlent)

/-- The items whose key is neither taken nor the key of an item before them. -/
def firstOfEach {α : Type} (key : α → String) (taken : List String) : List α → List α
  | [] => []
  | x :: xs =>
    if key x ∈ taken then firstOfEach key taken xs
    else x :: firstOfEach key (taken ++ [key x]) xs

theorem key_not_mem_of_mem_firstOfEach {α : Type} {key : α → String} {taken : List String}
    {xs : List α} {y : α} (h : y ∈ firstOfEach key taken xs) : key y ∉ taken := by
  induction xs generalizing taken with
  | nil => cases h
  | cons x xs ih =>
    unfold firstOfEach at h
    split at h
    · exact ih h
    · rename_i hx
      rcases List.mem_cons.1 h with rfl | h
      · exact hx
      · exact fun hy => ih h (List.mem_append_left _ hy)

/-- Of the items with a key that is not taken the first one is kept, and it alone. -/
theorem filter_firstOfEach {α : Type} (key : α → String) {taken : List String} {name : String}
    (h : name ∉ taken) (xs : List α) :
    (firstOfEach key taken xs).filter (key · == name) = (xs.find? (key · == name)).toList := by
  induction xs generalizing taken with
  | nil => rfl
  | cons x xs ih =>
    unfold firstOfEach
    by_cases hx : key x = name
    · have hrest : (firstOfEach key (taken ++ [key x]) xs).filter (key · == name) = [] := by
        rw [List.filter_eq_nil_iff]
        intro y hy heq
        have := key_not_mem_of_mem_firstOfEach hy
        simp_all
      subst hx
      rw [if_neg h, List.filter_cons_of_pos (by simp), hrest]
      simp
    · rw [List.find?_cons_of_neg (by simpa using hx)]
      split
      · exact ih h
      · rw [List.filter_cons_of_neg (by simpa using hx)]
        exact ih (by simp [h, Ne.symm hx])

/-- Where an item is admitted just if no item has its key, a key goes to the first item with it. -/
theorem gather_eq_append_of {α : Type} {admits : List α → α → Bool} {key : α → String}
    {own lent : List α} (hadmits : ∀ items x, items ⊆ own ++ lent → x ∈ lent →
      (admits items x = true ↔ key x ∉ items.map key)) :
    gather admits own lent = own ++ firstOfEach key (own.map key) lent := by
  induction lent generalizing own with
  | nil => simp [gather, firstOfEach]
  | cons x lent ih =>
    have hcond := hadmits own x (List.subset_append_left _ _) List.mem_cons_self
    rw [gather_cons, firstOfEach]
    by_cases hmem : key x ∈ own.map key
    · rw [if_neg (fun h => hcond.1 h hmem), if_pos hmem]
      refine ih fun items y hitems hy =>
        hadmits items y (fun z hz => ?_) (List.mem_cons_of_mem _ hy)
      rcases List.mem_append.1 (hitems hz) with hz | hz
      · exact List.mem_append_left _ hz
      · exact List.mem_append_right _ (List.mem_cons_of_mem x hz)
    · rw [if_pos (hcond.2 hmem), if_neg hmem, ih, List.append_assoc, List.singleton_append,
        List.map_append, List.map_singleton]
      intro items y hitems hy
      rw [List.append_assoc, List.singleton_append] at hitems
      exact hadmits items y hitems (List.mem_cons_of_mem _ hy)

/-- As `gather_eq_append_of`, if it is the key that decides which items are admitted by the key. -/
theorem gather_eq_append {α : Type} {admits : List α → α → Bool} {key : α → String}
    {plain : String → Prop}
    (hadmits : ∀ items x, (∀ y ∈ items, plain (key y)) → plain (key x) →
      (admits items x = true ↔ key x ∉ items.map key))
    {own lent : List α} (hown : ∀ y ∈ own, plain (key y)) (hlent : ∀ y ∈ lent, plain (key y)) :
    gather admits own lent = own ++ firstOfEach key (own.map key) lent := by
  refine gather_eq_append_of fun items x hitems hx => hadmits items x (fun y hy => ?_) (hlent x hx)
  rcases List.mem_append.1 (hitems hy) with hy | hy
  · exact hown y hy
  · exact hlent y hy

/-! ## Members -/

def admitsMethod (methods : List Method) (m : Method) : Bool :=
  !methods.any (·.name == m.name) && isMemberName m.name &&
    !methods.any (·.identity == m.identity)

def admitsField (fields : List Field) (f : Field) : Bool :=
  !fields.any (·.name == f.name) && isMemberName f.name

def admitsConstructor (constructors : List Constructor) (c : Constructor) : Bool :=
  !constructors.any (·.identity == c.identity)

/-- Where methods of one identity have one name, only the name decides. -/
theorem admitsMethod_iff_of_identity {methods : List Method} {m : Method}
    (hvalid : isMemberName m.name = true)
    (hidentity : ∀ x ∈ methods, x.identity = m.identity → x.name = m.name) :
    admitsMethod methods m = true ↔ m.name ∉ methods.map (·.name) := by
  have hnew : m.name ∉ methods.map (·.name) → ∀ x ∈ methods, x.identity ≠ m.identity :=
    fun hnew x hx heq => hnew (List.mem_map.2 ⟨x, hx, hidentity x hx heq⟩)
  simp only [admitsMethod, hvalid, Bool.and_true, Bool.and_eq_true, Bool.not_eq_true', beq_iff_eq,
    List.any_eq_false, List.mem_map, not_exists, not_and] at hnew ⊢
  exact ⟨fun h => h.1, fun h => ⟨h, hnew h⟩⟩

theorem admitsField_iff_of_valid {fields : List Field} {f : Field}
    (hvalid : isMemberName f.name = true) :
    admitsField fields f = true ↔ f.name ∉ fields.map (·.name) := by
  simp [admitsField, hvalid]

/-- The declaration with the members of another one, rebound to it, as far as it admits them. -/
def Declaration.absorb (own lent : Declaration) : Declaration :=
  { own with
    methods := gather admitsMethod own.methods (lent.methods.map (·.rebind lent.name own.name))
    fields := gather admitsField own.fields (lent.fields.map (·.rebind lent.name own.name))
    constructors := gather admitsConstructor own.constructors
      (lent.constructors.map (·.rebind lent.name own.name)) }

namespace Merge

open TypeDef

theorem hasMethod_eq_any (t : TypeDef) (name : String) :
    t.hasMethod name = t.methods.any (·.name == name) := by
  rw [Bool.eq_iff_iff, hasMethod, method?, List.find?_isSome, List.any_eq_true]

theorem hasField_eq_any (t : TypeDef) (name : String) :
    t.hasField name = t.fields.any (·.name == name) := by
  rw [Bool.eq_iff_iff, hasField, field?, List.find?_isSome, List.any_eq_true]

theorem addMethod_eq (t : TypeDef) (m : Method) :
    t.addMethod m =
      if isMemberName m.name then
        if t.methods.any (·.identity == m.identity) then
          (t, .error (.duplicateMember t.name m.identity))
        else ({ t with methods := t.methods ++ [m] }, .ok ())
      else (t, .error (.malformed (t.name ++ " member") (.memberName m.name))) := by
  unfold addMethod checkMemberName
  cases isMemberName m.name <;> rfl

theorem addField_eq (t : TypeDef) (f : Field) :
    t.addField f =
      if isMemberName f.name then
        if t.hasField f.name then (t, .error (.duplicateMember t.name f.name))
        else ({ t with fields := t.fields ++ [f] }, .ok ())
      else (t, .error (.malformed (t.name ++ " member") (.memberName f.name))) := by
  unfold addField checkMemberName
  cases isMemberName f.name <;> rfl

theorem mergeMethod_target (owner : String) (p : Progress) (m : Method) :
    (p.mergeMethod owner m).target =
      ⟨{ p.target.toDeclaration with
          methods := gather admitsMethod p.target.methods [m.rebind owner p.target.name] },
        p.target.nested⟩ := by
  obtain ⟨⟨d, nested⟩, o⟩ := p
  have hname : m.name = (m.rebind owner d.name).name := rfl
  rw [Progress.mergeMethod, hname, hasMethod_eq_any]
  generalize m.rebind owner d.name = lent
  simp only [gather, List.foldl_cons, List.foldl_nil, admitsMethod]
  by_cases htaken : d.methods.any (·.name == lent.name) = true
  · simp [htaken, Progress.ignored]
  by_cases hvalid : isMemberName lent.name = true
  · by_cases hidentity : d.methods.any (·.identity == lent.identity) = true
    · simp [htaken, hvalid, hidentity, addMethod_eq, Progress.record]
    · simp [htaken, hvalid, hidentity, addMethod_eq, Progress.record]
  · simp [htaken, hvalid, addMethod_eq, Progress.record]

theorem mergeField_target (owner : String) (p : Progress) (f : Field) :
    (p.mergeField owner f).target =
      ⟨{ p.target.toDeclaration with
          fields := gather admitsField p.target.fields [f.rebind owner p.target.name] },
        p.target.nested⟩ := by
  obtain ⟨⟨d, nested⟩, o⟩ := p
  have hname : f.name = (f.rebind owner d.name).name := rfl
  rw [Progress.mergeField, hname]
  generalize f.rebind owner d.name = lent
  simp only [gather, List.foldl_cons, List.foldl_nil, admitsField, addField_eq, hasField_eq_any]
  by_cases htaken : d.fields.any (·.name == lent.name) = true
  · simp [htaken, Progress.ignored]
  by_cases hvalid : isMemberName lent.name = true
  · simp [htaken, hvalid, Progress.record]
  · simp [htaken, hvalid, Progress.record]

theorem mergeConstructor_target (owner : String) (p : Progress) (c : Constructor) :
    (p.mergeConstructor owner c).target =
      ⟨{ p.target.toDeclaration with
          constructors :=
            gather admitsConstructor p.target.constructors [c.rebind owner p.target.name] },
        p.target.nested⟩ := by
  obtain ⟨⟨d, nested⟩, o⟩ := p
  rw [Progress.mergeConstructor, addConstructor]
  generalize c.rebind owner d.name = lent
  simp only [gather, List.foldl_cons, List.foldl_nil, admitsConstructor]
  by_cases hidentity : d.constructors.any (·.identity == lent.identity) = true
  · simp [hidentity, Progress.record]
  · simp [hidentity, Progress.record]

/-- One of the three lists of members in a declaration. -/
structure MemberList (α : Type) where
  get : Declaration → List α
  set : Declaration → List α → Declaration
  set_get : ∀ d, set d (get d) = d
  get_set : ∀ d items, get (set d items) = items
  set_set : ∀ d items items', set (set d items) items' = set d items'
  name_set : ∀ d items, (set d items).name = d.name

def methodList : MemberList Method :=
  ⟨(·.methods), fun d methods => { d with methods }, fun _ => rfl, fun _ _ => rfl,
    fun _ _ _ => rfl, fun _ _ => rfl⟩

def fieldList : MemberList Field :=
  ⟨(·.fields), fun d fields => { d with fields }, fun _ => rfl, fun _ _ => rfl,
    fun _ _ _ => rfl, fun _ _ => rfl⟩

def constructorList : MemberList Constructor :=
  ⟨(·.constructors), fun d constructors => { d with constructors }, fun _ => rfl, fun _ _ => rfl,
    fun _ _ _ => rfl, fun _ _ => rfl⟩

/-- If one member is gathered into a list, all of them are, in order. -/
theorem foldl_target {α : Type} (list : MemberList α) {admits : List α → α → Bool}
    {rebind : String → α → α} {step : Progress → α → Progress}
    (h : ∀ p x, (step p x).target =
      ⟨list.set p.target.toDeclaration
        (gather admits (list.get p.target.toDeclaration) [rebind p.target.name x]),
        p.target.nested⟩) (items : List α) (p : Progress) :
    (items.foldl step p).target =
      ⟨list.set p.target.toDeclaration
        (gather admits (list.get p.target.toDeclaration) (items.map (rebind p.target.name))),
        p.target.nested⟩ := by
  induction items generalizing p with
  | nil =>
    obtain ⟨⟨d, nested⟩, o⟩ := p
    simp only [gather, List.foldl_nil, List.map_nil, list.set_get]
  | cons x items ih =>
    rw [List.foldl_cons, ih, h]
    simp only [list.get_set, list.set_set, list.name_set, ← gather_append, List.singleton_append,
      List.map_cons]

/-- **Merging the members of a declaration** changes the target's own declaration only. -/
theorem mergeMembers_target (d : Declaration) (p : Progress) :
    (p.mergeMembers d).target = ⟨p.target.toDeclaration.absorb d, p.target.nested⟩ := by
  rw [Progress.mergeMembers, foldl_target constructorList (mergeConstructor_target d.name),
    foldl_target fieldList (mergeField_target d.name),
    foldl_target methodList (mergeMethod_target d.name)]
  rfl

end Merge

end Mixins
