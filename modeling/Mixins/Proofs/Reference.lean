import Mixins.Proofs.NestedName
import Mixins.Proofs.Tree
import Mixins.Rebind

/-!
# References

A member refers to types by name: in its signature, in the constants of its body, in the value of a
field and in the default of a marker property. `references` lists these names for each kind of value
in which they can stand.

* `Method.references_rebind` and its siblings — rebinding a value rebinds each of its references and
  adds none.
* `not_within_of_mem_map_rebind` — a value whose references below an outer name all lie below the
  old owner no longer refers to anything below that name.
-/

namespace Mixins

def ValueType.references : ValueType → List String
  | .object name => [name]
  | .array element => element.references
  | _ => []

def Signature.references (s : Signature) : List String :=
  s.params.flatMap ValueType.references ++ s.ret.references

def Constant.references : Constant → List String
  | .typeRef name => [name]
  | .fieldRef owner _ type => owner :: type.references
  | .methodRef owner _ signature => owner :: signature.references
  | _ => []

mutual
def Marker.Value.references : Marker.Value → List String
  | .typeRef name => [name]
  | .array items => Marker.Value.referencesOfAll items
  | _ => []
def Marker.Value.referencesOfAll : List Marker.Value → List String
  | [] => []
  | item :: items => item.references ++ referencesOfAll items
end

def Body.references (b : Body) : List String := b.constants.flatMap Constant.references

def Field.references (f : Field) : List String :=
  f.type.references ++ f.constantValue.toList.flatMap Constant.references

def Method.references (m : Method) : List String :=
  m.signature.references ++ m.body.toList.flatMap Body.references ++
    m.markerDefault.toList.flatMap Marker.Value.references

def Constructor.references (c : Constructor) : List String :=
  c.signature.references ++ c.body.toList.flatMap Body.references

/-- The references of all members that a type declares, those of nested types not counted. -/
def Declaration.references (d : Declaration) : List String :=
  d.methods.flatMap Method.references ++ d.fields.flatMap Field.references ++
    d.constructors.flatMap Constructor.references

/-! ## References after rebinding -/

section

variable (source destination : String)

/-- What holds of each item of a list holds of the list. -/
theorem flatMap_references_rebind {α : Type} {references : α → List String} {rebind : α → α}
    (h : ∀ x, references (rebind x) = (references x).map (Name.rebind · source destination))
    (items : List α) :
    (items.map rebind).flatMap references =
      (items.flatMap references).map (Name.rebind · source destination) := by
  rw [List.flatMap_map, List.map_flatMap]
  simp only [h]

theorem ValueType.references_rebind (v : ValueType) :
    (v.rebind source destination).references =
      v.references.map (Name.rebind · source destination) := by
  induction v with
  | array element ih => exact ih
  | object | void | bool | int | long | double | str => rfl

theorem Signature.references_rebind (s : Signature) :
    (s.rebind source destination).references =
      s.references.map (Name.rebind · source destination) := by
  have hparams := flatMap_references_rebind source destination
    (ValueType.references_rebind source destination) s.params
  rw [references, rebind, hparams, ValueType.references_rebind, references, List.map_append]

theorem Constant.references_rebind (c : Constant) :
    (c.rebind source destination).references =
      c.references.map (Name.rebind · source destination) := by
  cases c with
  | fieldRef owner name type =>
    simp [rebind, references, ValueType.references_rebind]
  | methodRef owner name signature =>
    simp [rebind, references, Signature.references_rebind]
  | int | str | typeRef => rfl

mutual
theorem Marker.Value.references_rebind : ∀ v : Marker.Value,
    (v.rebind source destination).references =
      v.references.map (Name.rebind · source destination)
  | .array items => Marker.Value.referencesOfAll_rebindAll items
  | .bool _ | .int _ | .str _ | .typeRef _ => rfl
theorem Marker.Value.referencesOfAll_rebindAll : ∀ items : List Marker.Value,
    referencesOfAll (rebindAll source destination items) =
      (referencesOfAll items).map (Name.rebind · source destination)
  | [] => rfl
  | item :: items => by
    have hitem := Marker.Value.references_rebind item
    have hitems := Marker.Value.referencesOfAll_rebindAll items
    rw [rebindAll, referencesOfAll, referencesOfAll, hitem, hitems, List.map_append]
end

theorem Body.references_rebind (b : Body) :
    (b.rebind source destination).references =
      b.references.map (Name.rebind · source destination) :=
  flatMap_references_rebind source destination (Constant.references_rebind source destination)
    b.constants

/-- As `flatMap_references_rebind`, for a part that a member may lack. -/
theorem toList_references_rebind {α : Type} {references : α → List String} {rebind : α → α}
    (h : ∀ x, references (rebind x) = (references x).map (Name.rebind · source destination))
    (part : Option α) :
    (part.map rebind).toList.flatMap references =
      (part.toList.flatMap references).map (Name.rebind · source destination) := by
  rw [Option.toList_map]
  exact flatMap_references_rebind source destination h part.toList

theorem Field.references_rebind (f : Field) :
    (f.rebind source destination).references =
      f.references.map (Name.rebind · source destination) := by
  have hvalue := toList_references_rebind source destination
    (Constant.references_rebind source destination) f.constantValue
  rw [references, rebind, ValueType.references_rebind, hvalue, references, List.map_append]

theorem Method.references_rebind (m : Method) :
    (m.rebind source destination).references =
      m.references.map (Name.rebind · source destination) := by
  have hbody := toList_references_rebind source destination
    (Body.references_rebind source destination) m.body
  have hdefault := toList_references_rebind source destination
    (Marker.Value.references_rebind source destination) m.markerDefault
  rw [references, rebind, Signature.references_rebind, hbody, hdefault, references,
    List.map_append, List.map_append]

theorem Constructor.references_rebind (c : Constructor) :
    (c.rebind source destination).references =
      c.references.map (Name.rebind · source destination) := by
  have hbody := toList_references_rebind source destination
    (Body.references_rebind source destination) c.body
  rw [references, rebind, Signature.references_rebind, hbody, references, List.map_append]

end

/-! ## References below a name -/

/-- If all names below `outer` lie below `source`, none is left below `outer` after `source` has
become a name apart from it. -/
theorem not_within_of_mem_map_rebind {names : List String} {outer source destination r : String}
    (hinward : ∀ x ∈ names, Name.Within outer x → Name.Within source x)
    (hapart : ∀ x, Name.Within destination x → ¬ Name.Within outer x)
    (h : r ∈ names.map (Name.rebind · source destination)) : ¬ Name.Within outer r := by
  obtain ⟨x, hx, rfl⟩ := List.mem_map.1 h
  by_cases hs : Name.Within source x
  · exact hapart _ (Name.rebind_of_within destination hs)
  · rw [Name.rebind_of_not_within destination hs]
    exact fun ho => hs (hinward x hx ho)

end Mixins
