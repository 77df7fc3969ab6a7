import Mixins.Proofs.Reference

/-!
# Changing references

A value with each of its references changed by a function on names, and nothing else. Rebinding is
such a change, so what it does is known from what it does to a name.

* `Method.mapReferences_mapReferences` and its siblings — one change after another is one change.
* `Method.mapReferences_eq_self` and its siblings — a change that leaves the references of a value
  alone leaves the value alone.
* `Method.rebind_eq_mapReferences` and its siblings — rebinding changes references only.
-/

namespace Mixins

def ValueType.mapReferences (f : String → String) : ValueType → ValueType
  | .object name => .object (f name)
  | .array element => .array (element.mapReferences f)
  | other => other

def Signature.mapReferences (f : String → String) (s : Signature) : Signature :=
  ⟨s.params.map (·.mapReferences f), s.ret.mapReferences f⟩

def Constant.mapReferences (f : String → String) : Constant → Constant
  | .typeRef name => .typeRef (f name)
  | .fieldRef owner name type => .fieldRef (f owner) name (type.mapReferences f)
  | .methodRef owner name signature => .methodRef (f owner) name (signature.mapReferences f)
  | other => other

mutual
def Marker.Value.mapReferences (f : String → String) : Marker.Value → Marker.Value
  | .typeRef name => .typeRef (f name)
  | .array items => .array (Marker.Value.mapReferencesOfAll f items)
  | .bool b => .bool b
  | .int n => .int n
  | .str s => .str s
def Marker.Value.mapReferencesOfAll (f : String → String) : List Marker.Value → List Marker.Value
  | [] => []
  | item :: items => item.mapReferences f :: mapReferencesOfAll f items
end

def Body.mapReferences (f : String → String) (b : Body) : Body :=
  { b with constants := b.constants.map (·.mapReferences f) }

def Field.mapReferences (f : String → String) (x : Field) : Field :=
  { x with
    type := x.type.mapReferences f
    constantValue := x.constantValue.map (·.mapReferences f) }

def Method.mapReferences (f : String → String) (m : Method) : Method :=
  { m with
    signature := m.signature.mapReferences f
    body := m.body.map (·.mapReferences f)
    markerDefault := m.markerDefault.map (·.mapReferences f) }

def Constructor.mapReferences (f : String → String) (c : Constructor) : Constructor :=
  { c with
    signature := c.signature.mapReferences f
    body := c.body.map (·.mapReferences f) }

/-! ## One change after another -/

section

variable (f g : String → String)

theorem ValueType.mapReferences_mapReferences (v : ValueType) :
    (v.mapReferences f).mapReferences g = v.mapReferences fun r => g (f r) := by
  induction v with
  | array element ih => simp only [mapReferences, ih]
  | object | void | bool | int | long | double | str => rfl

theorem Signature.mapReferences_mapReferences (s : Signature) :
    (s.mapReferences f).mapReferences g = s.mapReferences fun r => g (f r) := by
  simp [mapReferences, ValueType.mapReferences_mapReferences]

theorem Constant.mapReferences_mapReferences (c : Constant) :
    (c.mapReferences f).mapReferences g = c.mapReferences fun r => g (f r) := by
  cases c with
  | fieldRef owner name type =>
    simp only [mapReferences, ValueType.mapReferences_mapReferences]
  | methodRef owner name signature =>
    simp only [mapReferences, Signature.mapReferences_mapReferences]
  | int | str | typeRef => rfl

mutual
theorem Marker.Value.mapReferences_mapReferences : ∀ v : Marker.Value,
    (v.mapReferences f).mapReferences g = v.mapReferences fun r => g (f r)
  | .array items => congrArg Marker.Value.array (Marker.Value.mapReferencesOfAll_twice items)
  | .bool _ | .int _ | .str _ | .typeRef _ => rfl
theorem Marker.Value.mapReferencesOfAll_twice : ∀ items : List Marker.Value,
    mapReferencesOfAll g (mapReferencesOfAll f items) =
      mapReferencesOfAll (fun r => g (f r)) items
  | [] => rfl
  | item :: items => by
    have hitem := Marker.Value.mapReferences_mapReferences item
    have hitems := Marker.Value.mapReferencesOfAll_twice items
    rw [mapReferencesOfAll, mapReferencesOfAll, mapReferencesOfAll, hitem, hitems]
end

theorem Body.mapReferences_mapReferences (b : Body) :
    (b.mapReferences f).mapReferences g = b.mapReferences fun r => g (f r) := by
  simp [mapReferences, Constant.mapReferences_mapReferences]

theorem Field.mapReferences_mapReferences (x : Field) :
    (x.mapReferences f).mapReferences g = x.mapReferences fun r => g (f r) := by
  simp [mapReferences, ValueType.mapReferences_mapReferences,
    Constant.mapReferences_mapReferences, Function.comp_def]

theorem Method.mapReferences_mapReferences (m : Method) :
    (m.mapReferences f).mapReferences g = m.mapReferences fun r => g (f r) := by
  simp [mapReferences, Signature.mapReferences_mapReferences, Body.mapReferences_mapReferences,
    Marker.Value.mapReferences_mapReferences, Function.comp_def]

theorem Constructor.mapReferences_mapReferences (c : Constructor) :
    (c.mapReferences f).mapReferences g = c.mapReferences fun r => g (f r) := by
  simp [mapReferences, Signature.mapReferences_mapReferences, Body.mapReferences_mapReferences,
    Function.comp_def]

end

/-! ## Changes that leave the references alone -/

section

variable {f : String → String}

/-- What holds of each item of a list holds of the list. -/
theorem map_eq_self_of_references {α : Type} {references : α → List String} {change : α → α}
    (h : ∀ x, (∀ r ∈ references x, f r = r) → change x = x) {items : List α}
    (hitems : ∀ r ∈ items.flatMap references, f r = r) : items.map change = items := by
  have hsame : ∀ x ∈ items, change x = id x := fun x hx =>
    h x fun r hr => hitems r (List.mem_flatMap.2 ⟨x, hx, hr⟩)
  rw [List.map_congr_left hsame, List.map_id]

/-- As `map_eq_self_of_references`, for a part that a member may lack. -/
theorem option_map_eq_self_of_references {α : Type} {references : α → List String}
    {change : α → α} (h : ∀ x, (∀ r ∈ references x, f r = r) → change x = x) {part : Option α}
    (hpart : ∀ r ∈ part.toList.flatMap references, f r = r) : part.map change = part := by
  cases part with
  | none => rfl
  | some x => rw [Option.map_some, h x fun r hr => hpart r (by simpa using hr)]

theorem ValueType.mapReferences_eq_self {v : ValueType} (h : ∀ r ∈ v.references, f r = r) :
    v.mapReferences f = v := by
  induction v with
  | object name => rw [mapReferences, h name List.mem_cons_self]
  | array element ih => rw [mapReferences, ih h]
  | void | bool | int | long | double | str => rfl

theorem Signature.mapReferences_eq_self {s : Signature} (h : ∀ r ∈ s.references, f r = r) :
    s.mapReferences f = s := by
  obtain ⟨hparams, hret⟩ := List.forall_mem_append.1 h
  rw [mapReferences, ValueType.mapReferences_eq_self hret,
    map_eq_self_of_references (fun _ => ValueType.mapReferences_eq_self) hparams]

theorem Constant.mapReferences_eq_self {c : Constant} (h : ∀ r ∈ c.references, f r = r) :
    c.mapReferences f = c := by
  cases c with
  | typeRef name => rw [mapReferences, h name List.mem_cons_self]
  | fieldRef owner name type =>
    obtain ⟨howner, htype⟩ := List.forall_mem_cons.1 h
    rw [mapReferences, howner, ValueType.mapReferences_eq_self htype]
  | methodRef owner name signature =>
    obtain ⟨howner, hsignature⟩ := List.forall_mem_cons.1 h
    rw [mapReferences, howner, Signature.mapReferences_eq_self hsignature]
  | int | str => rfl

mutual
theorem Marker.Value.mapReferences_eq_self : ∀ {v : Marker.Value},
    (∀ r ∈ v.references, f r = r) → v.mapReferences f = v
  | .array _, h => congrArg Marker.Value.array (Marker.Value.mapReferencesOfAll_eq_self h)
  | .typeRef name, h => by rw [mapReferences, h name List.mem_cons_self]
  | .bool _, _ | .int _, _ | .str _, _ => rfl
theorem Marker.Value.mapReferencesOfAll_eq_self : ∀ {items : List Marker.Value},
    (∀ r ∈ referencesOfAll items, f r = r) → mapReferencesOfAll f items = items
  | [], _ => rfl
  | item :: items, h => by
    obtain ⟨hitem, hitems⟩ := List.forall_mem_append.1 h
    rw [mapReferencesOfAll, Marker.Value.mapReferences_eq_self hitem,
      Marker.Value.mapReferencesOfAll_eq_self hitems]
end

theorem Body.mapReferences_eq_self {b : Body} (h : ∀ r ∈ b.references, f r = r) :
    b.mapReferences f = b := by
  rw [mapReferences, map_eq_self_of_references (fun _ => Constant.mapReferences_eq_self) h]

theorem Field.mapReferences_eq_self {x : Field} (h : ∀ r ∈ x.references, f r = r) :
    x.mapReferences f = x := by
  obtain ⟨htype, hvalue⟩ := List.forall_mem_append.1 h
  rw [mapReferences, ValueType.mapReferences_eq_self htype,
    option_map_eq_self_of_references (fun _ => Constant.mapReferences_eq_self) hvalue]

theorem Method.mapReferences_eq_self {m : Method} (h : ∀ r ∈ m.references, f r = r) :
    m.mapReferences f = m := by
  obtain ⟨hmost, hdefault⟩ := List.forall_mem_append.1 h
  obtain ⟨hsignature, hbody⟩ := List.forall_mem_append.1 hmost
  rw [mapReferences, Signature.mapReferences_eq_self hsignature,
    option_map_eq_self_of_references (fun _ => Body.mapReferences_eq_self) hbody,
    option_map_eq_self_of_references (fun _ => Marker.Value.mapReferences_eq_self) hdefault]

theorem Constructor.mapReferences_eq_self {c : Constructor} (h : ∀ r ∈ c.references, f r = r) :
    c.mapReferences f = c := by
  obtain ⟨hsignature, hbody⟩ := List.forall_mem_append.1 h
  rw [mapReferences, Signature.mapReferences_eq_self hsignature,
    option_map_eq_self_of_references (fun _ => Body.mapReferences_eq_self) hbody]

end

/-! ## Rebinding -/

section

variable (source destination : String)

theorem ValueType.rebind_eq_mapReferences (v : ValueType) :
    v.rebind source destination = v.mapReferences (Name.rebind · source destination) := by
  induction v with
  | array element ih => rw [rebind, ih, mapReferences]
  | object | void | bool | int | long | double | str => rfl

theorem Signature.rebind_eq_mapReferences (s : Signature) :
    s.rebind source destination = s.mapReferences (Name.rebind · source destination) := by
  simp only [rebind, mapReferences, ValueType.rebind_eq_mapReferences]

theorem Constant.rebind_eq_mapReferences (c : Constant) :
    c.rebind source destination = c.mapReferences (Name.rebind · source destination) := by
  cases c with
  | fieldRef owner name type =>
    rw [rebind, mapReferences, ValueType.rebind_eq_mapReferences]
  | methodRef owner name signature =>
    rw [rebind, mapReferences, Signature.rebind_eq_mapReferences]
  | int | str | typeRef => rfl

mutual
theorem Marker.Value.rebind_eq_mapReferences : ∀ v : Marker.Value,
    v.rebind source destination = v.mapReferences (Name.rebind · source destination)
  | .array items => congrArg Marker.Value.array (Marker.Value.rebindAll_eq_mapReferences items)
  | .bool _ | .int _ | .str _ | .typeRef _ => rfl
theorem Marker.Value.rebindAll_eq_mapReferences : ∀ items : List Marker.Value,
    rebindAll source destination items =
      mapReferencesOfAll (Name.rebind · source destination) items
  | [] => rfl
  | item :: items => by
    have hitem := Marker.Value.rebind_eq_mapReferences item
    have hitems := Marker.Value.rebindAll_eq_mapReferences items
    rw [rebindAll, mapReferencesOfAll, hitem, hitems]
end

theorem Body.rebind_eq_mapReferences (b : Body) :
    b.rebind source destination = b.mapReferences (Name.rebind · source destination) := by
  simp only [rebind, mapReferences, Constant.rebind_eq_mapReferences]

theorem Field.rebind_eq_mapReferences (x : Field) :
    x.rebind source destination = x.mapReferences (Name.rebind · source destination) := by
  simp only [rebind, mapReferences, ValueType.rebind_eq_mapReferences,
    Constant.rebind_eq_mapReferences]

theorem Method.rebind_eq_mapReferences (m : Method) :
    m.rebind source destination = m.mapReferences (Name.rebind · source destination) := by
  simp only [rebind, mapReferences, Signature.rebind_eq_mapReferences,
    Body.rebind_eq_mapReferences, Marker.Value.rebind_eq_mapReferences]

theorem Constructor.rebind_eq_mapReferences (c : Constructor) :
    c.rebind source destination = c.mapReferences (Name.rebind · source destination) := by
  simp only [rebind, mapReferences, Signature.rebind_eq_mapReferences,
    Body.rebind_eq_mapReferences]

end

end Mixins
