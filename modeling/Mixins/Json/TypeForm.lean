import Mixins.Json.Parser
import Mixins.Json.Printer
import Mixins.Json.Reader
import Mixins.TypeDef

/-!
# Type definitions as JSON

The form in which type definitions are shown and written by hand. Records are objects of their
fields in the order of their declaration; a variant is an object whose only key is the variant, or
the variant alone if it has no content.
-/

namespace Mixins

open Json

/-! ## Writing -/

def ValueType.toJson : ValueType → Json
  | .void => ofString "void"
  | .bool => ofString "bool"
  | .int => ofString "int"
  | .long => ofString "long"
  | .double => ofString "double"
  | .str => ofString "str"
  | .object name => ofMembers [("object", ofString name)]
  | .array element => ofMembers [("array", element.toJson)]

def Signature.toJson (s : Signature) : Json :=
  ofMembers [("params", .arr (s.params.map ValueType.toJson)), ("ret", s.ret.toJson)]

def Constant.toJson : Constant → Json
  | .int n => ofMembers [("int", .int n.toInt)]
  | .str s => ofMembers [("str", ofString s)]
  | .typeRef name => ofMembers [("type_ref", ofString name)]
  | .fieldRef owner name type =>
    ofMembers [("field_ref", ofMembers
      [("owner", ofString owner), ("name", ofString name), ("ty", type.toJson)])]
  | .methodRef owner name signature =>
    ofMembers [("method_ref", ofMembers
      [("owner", ofString owner), ("name", ofString name), ("signature", signature.toJson)])]

def Body.toJson (b : Body) : Json :=
  ofMembers
    [("max_stack", .int b.maxStack.toNat), ("max_locals", .int b.maxLocals.toNat),
      ("code", .arr (b.code.map fun byte => .int byte.toNat)),
      ("constants", .arr (b.constants.map Constant.toJson))]

mutual
def Marker.Value.toJson : Marker.Value → Json
  | .bool b => ofMembers [("bool", .bool b)]
  | .int n => ofMembers [("int", .int n.toInt)]
  | .str s => ofMembers [("str", ofString s)]
  | .typeRef name => ofMembers [("type_ref", ofString name)]
  | .array items => ofMembers [("array", .arr (Marker.Value.toJsonAll items))]
def Marker.Value.toJsonAll : List Marker.Value → List Json
  | [] => []
  | item :: items => item.toJson :: toJsonAll items
end

def Marker.toJson (m : Marker) : Json :=
  ofMembers
    [("type_name", ofString m.typeName),
      ("values", ofMembers (m.values.entries.map fun (name, value) => (name, value.toJson)))]

def Field.toJson (f : Field) : Json :=
  ofMembers
    [("name", ofString f.name), ("ty", f.type.toJson), ("access", .int f.access.toNat),
      ("constant_value", ofOption Constant.toJson f.constantValue)]

def Method.toJson (m : Method) : Json :=
  ofMembers
    [("name", ofString m.name), ("signature", m.signature.toJson), ("access", .int m.access.toNat),
      ("body", ofOption Body.toJson m.body),
      ("marker_default", ofOption Marker.Value.toJson m.markerDefault)]

def Constructor.toJson (c : Constructor) : Json :=
  ofMembers
    [("signature", c.signature.toJson), ("access", .int c.access.toNat),
      ("body", ofOption Body.toJson c.body)]

def Kind.word : Kind → String
  | .classType => "class"
  | .interfaceType => "interface"
  | .recordType => "record"
  | .enumType => "enum"
  | .markerType => "marker"
  | .packageInfo => "package_info"

/-- The members that show a type's own declaration. -/
def Declaration.members (d : Declaration) : List (String × Json) :=
  [("name", ofString d.name), ("kind", ofString d.kind.word), ("access", .int d.access.toNat),
    ("super_type", ofOption ofString d.superType), ("interfaces", ofStrings d.interfaces),
    ("markers", .arr (d.markers.map Marker.toJson)), ("fields", .arr (d.fields.map Field.toJson)),
    ("methods", .arr (d.methods.map Method.toJson)),
    ("constructors", .arr (d.constructors.map Constructor.toJson))]

mutual
def TypeDef.toJson : TypeDef → Json
  | ⟨declaration, nested⟩ =>
    ofMembers (declaration.members ++ [("nested", .arr (TypeDef.toJsonAll nested))])
def TypeDef.toJsonAll : List TypeDef → List Json
  | [] => []
  | t :: ts => t.toJson :: toJsonAll ts
end

/-! ## Reading -/

/-- A variant without content. -/
def ValueType.ofWord? : String → Option ValueType
  | "void" => some .void
  | "bool" => some .bool
  | "int" => some .int
  | "long" => some .long
  | "double" => some .double
  | "str" => some .str
  | _ => none

def ValueType.ofJson? : Reader ValueType
  | _, .str (some word) => ofWord? word
  | _ + 1, .obj [(some "object", name)] => name.string?.map .object
  | depth + 1, .obj [(some "array", element)] => (ofJson? depth element).map .array
  | _ + 1, .obj [(some word, .null)] => ofWord? word
  | _, _ => none

def Signature.ofJson? : Reader Signature := fun depth j => do
  let (depth, [some params, some ret]) ← record? ["params", "ret"] 2 depth j | none
  return ⟨← list? ValueType.ofJson? depth params, ← ValueType.ofJson? depth ret⟩

def Constant.fieldRef? : Reader Constant := fun depth j => do
  let (depth, [some owner, some name, some type]) ← record? ["owner", "name", "ty"] 3 depth j | none
  return .fieldRef (← owner.string?) (← name.string?) (← ValueType.ofJson? depth type)

def Constant.methodRef? : Reader Constant := fun depth j => do
  let (depth, [some owner, some name, some signature]) ←
    record? ["owner", "name", "signature"] 3 depth j | none
  return .methodRef (← owner.string?) (← name.string?) (← Signature.ofJson? depth signature)

def Constant.ofJson? : Reader Constant
  | _ + 1, .obj [(some "int", n)] => n.int64?.map .int
  | _ + 1, .obj [(some "str", s)] => s.string?.map .str
  | _ + 1, .obj [(some "type_ref", name)] => name.string?.map .typeRef
  | depth + 1, .obj [(some "field_ref", j)] => fieldRef? depth j
  | depth + 1, .obj [(some "method_ref", j)] => methodRef? depth j
  | _, _ => none

def Body.ofJson? : Reader Body := fun depth j => do
  let (depth, [some maxStack, some maxLocals, some code, some constants]) ←
    record? ["max_stack", "max_locals", "code", "constants"] 4 depth j | none
  return ⟨← maxStack.word16?, ← maxLocals.word16?, ← list? (fun _ => byte?) depth code,
    ← list? Constant.ofJson? depth constants⟩

def Marker.Value.ofJson? : Reader Marker.Value
  | _ + 1, .obj [(some "bool", .bool b)] => some (.bool b)
  | _ + 1, .obj [(some "int", n)] => n.int64?.map .int
  | _ + 1, .obj [(some "str", s)] => s.string?.map .str
  | _ + 1, .obj [(some "type_ref", name)] => name.string?.map .typeRef
  | depth + 2, .obj [(some "array", .arr items)] => (items.mapM (ofJson? depth)).map .array
  | _, _ => none

def Marker.ofJson? : Reader Marker := fun depth j => do
  let (depth, [some typeName, some values]) ← record? ["type_name", "values"] 2 depth j | none
  return ⟨← typeName.string?, .ofEntries (← entries? Value.ofJson? depth values)⟩

def Field.ofJson? : Reader Field := fun depth j => do
  let (depth, [some name, some type, some access, constantValue]) ←
    record? ["name", "ty", "access", "constant_value"] 4 depth j | none
  return ⟨← name.string?, ← ValueType.ofJson? depth type, ← access.word16?,
    ← optionalField? Constant.ofJson? depth constantValue⟩

def Method.ofJson? : Reader Method := fun depth j => do
  let (depth, [some name, some signature, some access, body, markerDefault]) ←
    record? ["name", "signature", "access", "body", "marker_default"] 5 depth j | none
  return ⟨← name.string?, ← Signature.ofJson? depth signature, ← access.word16?,
    ← optionalField? Body.ofJson? depth body,
    ← optionalField? Marker.Value.ofJson? depth markerDefault⟩

def Constructor.ofJson? : Reader Constructor := fun depth j => do
  let (depth, [some signature, some access, body]) ←
    record? ["signature", "access", "body"] 3 depth j | none
  return ⟨← Signature.ofJson? depth signature, ← access.word16?,
    ← optionalField? Body.ofJson? depth body⟩

def Kind.ofWord? : String → Option Kind
  | "class" => some .classType
  | "interface" => some .interfaceType
  | "record" => some .recordType
  | "enum" => some .enumType
  | "marker" => some .markerType
  | "package_info" => some .packageInfo
  | _ => none

def Kind.ofJson? : Reader Kind
  | _, .str (some word) => ofWord? word
  | _ + 1, .obj [(some word, .null)] => ofWord? word
  | _, _ => none

/-- The fields of a type's record, in their order. -/
def TypeDef.fieldNames : List String :=
  ["name", "kind", "access", "super_type", "interfaces", "markers", "fields", "methods",
    "constructors", "nested"]

/-- The declaration in the fields of a type's record, and the items of the field that holds the
nested types. -/
def Declaration.ofFields? (depth : Nat) : List (Option Json) → Option (Declaration × List Json)
  | [some name, some kind, some access, superType, some interfaces, some markers, some fields,
      some methods, some constructors, some (.arr nested)] => do
    let declaration : Declaration :=
      { name := ← name.string?
        kind := ← Kind.ofJson? depth kind
        access := ← access.word16?
        superType := ← optionalField? (fun _ => string?) depth superType
        interfaces := ← list? (fun _ => string?) depth interfaces
        markers := ← list? Marker.ofJson? depth markers
        fields := ← list? Field.ofJson? depth fields
        methods := ← list? Method.ofJson? depth methods
        constructors := ← list? Constructor.ofJson? depth constructors }
    return (declaration, nested)
  | _ => none

/-- A type takes two levels: its record, and the arrays in it. -/
def TypeDef.ofJson? : Reader TypeDef
  | depth + 2, j => do
    let (_, fields) ← record? fieldNames 10 (depth + 2) j
    let (declaration, nested) ← Declaration.ofFields? (depth + 1) fields
    return ⟨declaration, ← nested.mapM (ofJson? depth)⟩
  | _, _ => none

/-! ## As text -/

def TypeDef.pretty (t : TypeDef) : String := t.toJson.pretty

/-- The type that a text spells. -/
def TypeDef.parse? (s : String) : Option TypeDef :=
  (Json.parse? s).bind (TypeDef.ofJson? Json.maxDepth)

end Mixins
