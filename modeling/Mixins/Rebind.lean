import Mixins.Member
import Mixins.Name

/-!
# Rebinding

A member that is copied from one type to another keeps its meaning only if its references to its old
owner become references to the new one. `rebind source destination` moves every reference to
`source`, or to a type nested in it, and touches nothing else: not names of members, not texts, not
code.
-/

namespace Mixins

def ValueType.rebind (source destination : String) : ValueType → ValueType
  | .object name => .object (Name.rebind name source destination)
  | .array element => .array (element.rebind source destination)
  | other => other

def Signature.rebind (source destination : String) (s : Signature) : Signature :=
  ⟨s.params.map (·.rebind source destination), s.ret.rebind source destination⟩

def Constant.rebind (source destination : String) : Constant → Constant
  | .typeRef name => .typeRef (Name.rebind name source destination)
  | .fieldRef owner name type =>
    .fieldRef (Name.rebind owner source destination) name (type.rebind source destination)
  | .methodRef owner name signature =>
    .methodRef (Name.rebind owner source destination) name (signature.rebind source destination)
  | other => other

mutual
def Marker.Value.rebind (source destination : String) : Marker.Value → Marker.Value
  | .typeRef name => .typeRef (Name.rebind name source destination)
  | .array items => .array (Marker.Value.rebindAll source destination items)
  | .bool b => .bool b
  | .int n => .int n
  | .str s => .str s
def Marker.Value.rebindAll (source destination : String) : List Marker.Value → List Marker.Value
  | [] => []
  | item :: items => item.rebind source destination :: rebindAll source destination items
end

def Body.rebind (source destination : String) (b : Body) : Body :=
  { b with constants := b.constants.map (·.rebind source destination) }

def Field.rebind (source destination : String) (f : Field) : Field :=
  { f with
    type := f.type.rebind source destination
    constantValue := f.constantValue.map (·.rebind source destination) }

def Method.rebind (source destination : String) (m : Method) : Method :=
  { m with
    signature := m.signature.rebind source destination
    body := m.body.map (·.rebind source destination)
    markerDefault := m.markerDefault.map (·.rebind source destination) }

def Constructor.rebind (source destination : String) (c : Constructor) : Constructor :=
  { c with
    signature := c.signature.rebind source destination
    body := c.body.map (·.rebind source destination) }

end Mixins
