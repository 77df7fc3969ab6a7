import Mixins.Failure
import Mixins.Sha256
import Mixins.Wire

/-!
# Type files

A type definition in the binary format: the parts of each record in the order of its declaration,
each variant as its index and its content. The first argument of each function is the depth that is
left.
-/

namespace Mixins

open Wire

def ValueType.encode : Nat → ValueType → Encoded
  | 0, _ => .error (.tooDeep "TypeSig")
  | _ + 1, .void => .ok (index 0)
  | _ + 1, .bool => .ok (index 1)
  | _ + 1, .int => .ok (index 2)
  | _ + 1, .long => .ok (index 3)
  | _ + 1, .double => .ok (index 4)
  | _ + 1, .str => .ok (index 5)
  | _ + 1, .object name => do return index 6 ++ (← Wire.text name)
  | depth + 1, .array element => do return index 7 ++ (← element.encode depth)

def ValueType.decode : Nat → Decoder ValueType
  | 0, _ => .error (.tooDeep "TypeSig")
  | depth + 1, bytes => do
    let (variant, rest) ← decodeVariant 8 bytes
    match variant with
    | 0 => .ok (.void, rest)
    | 1 => .ok (.bool, rest)
    | 2 => .ok (.int, rest)
    | 3 => .ok (.long, rest)
    | 4 => .ok (.double, rest)
    | 5 => .ok (.str, rest)
    | 6 => do
      let (name, rest) ← decodeText rest
      .ok (.object name, rest)
    | _ => do
      let (element, rest) ← ValueType.decode depth rest
      .ok (.array element, rest)

def Signature.encode : Nat → Signature → Encoded
  | 0, _ => .error (.tooDeep "Signature")
  | depth + 1, s => do
    return (← sequence (ValueType.encode depth) s.params) ++ (← s.ret.encode depth)

def Signature.decode : Nat → Decoder Signature
  | 0, _ => .error (.tooDeep "Signature")
  | depth + 1, bytes => do
    let (params, rest) ← decodeSequence (ValueType.decode depth) bytes
    let (ret, rest) ← ValueType.decode depth rest
    .ok (⟨params, ret⟩, rest)

def Constant.encode : Nat → Constant → Encoded
  | 0, _ => .error (.tooDeep "Constant")
  | depth + 1, c =>
    match c with
    | .int n => .ok (index 0 ++ int64 n)
    | .str s => do return index 1 ++ (← text s)
    | .typeRef name => do return index 2 ++ (← text name)
    | .fieldRef owner name type => do
      return index 3 ++ (← text owner) ++ (← text name) ++ (← type.encode depth)
    | .methodRef owner name signature => do
      return index 4 ++ (← text owner) ++ (← text name) ++ (← signature.encode depth)

def Constant.decode : Nat → Decoder Constant
  | 0, _ => .error (.tooDeep "Constant")
  | depth + 1, bytes => do
    let (variant, rest) ← decodeVariant 5 bytes
    match variant with
    | 0 => do
      let (n, rest) ← decodeInt64 rest
      .ok (.int n, rest)
    | 1 => do
      let (s, rest) ← decodeText rest
      .ok (.str s, rest)
    | 2 => do
      let (name, rest) ← decodeText rest
      .ok (.typeRef name, rest)
    | 3 => do
      let (owner, rest) ← decodeText rest
      let (name, rest) ← decodeText rest
      let (type, rest) ← ValueType.decode depth rest
      .ok (.fieldRef owner name type, rest)
    | _ => do
      let (owner, rest) ← decodeText rest
      let (name, rest) ← decodeText rest
      let (signature, rest) ← Signature.decode depth rest
      .ok (.methodRef owner name signature, rest)

def Body.encode : Nat → Body → Encoded
  | 0, _ => .error (.tooDeep "MethodBody")
  | depth + 1, b => do
    return word16 b.maxStack ++ word16 b.maxLocals ++ (← bytes b.code)
      ++ (← sequence (Constant.encode depth) b.constants)

def Body.decode : Nat → Decoder Body
  | 0, _ => .error (.tooDeep "MethodBody")
  | depth + 1, bytes => do
    let (maxStack, rest) ← decodeWord16 bytes
    let (maxLocals, rest) ← decodeWord16 rest
    let (code, rest) ← decodeBytes rest
    let (constants, rest) ← decodeSequence (Constant.decode depth) rest
    .ok (⟨maxStack, maxLocals, code, constants⟩, rest)

def Marker.Value.encode : Nat → Marker.Value → Encoded
  | 0, _ => .error (.tooDeep "MarkerValue")
  | _ + 1, .bool b => .ok (index 0 ++ Wire.bool b)
  | _ + 1, .int n => .ok (index 1 ++ int64 n)
  | _ + 1, .str s => do return index 2 ++ (← text s)
  | _ + 1, .typeRef name => do return index 3 ++ (← text name)
  | depth + 1, .array items => do return index 4 ++ (← sequence (encode depth) items)

def Marker.Value.decode : Nat → Decoder Marker.Value
  | 0, _ => .error (.tooDeep "MarkerValue")
  | depth + 1, bytes => do
    let (variant, rest) ← decodeVariant 5 bytes
    match variant with
    | 0 => do
      let (b, rest) ← decodeBool rest
      .ok (.bool b, rest)
    | 1 => do
      let (n, rest) ← decodeInt64 rest
      .ok (.int n, rest)
    | 2 => do
      let (s, rest) ← decodeText rest
      .ok (.str s, rest)
    | 3 => do
      let (name, rest) ← decodeText rest
      .ok (.typeRef name, rest)
    | _ => do
      let (items, rest) ← decodeSequence (decode depth) rest
      .ok (.array items, rest)

def Marker.encode : Nat → Marker → Encoded
  | 0, _ => .error (.tooDeep "Marker")
  | depth + 1, m => do
    return (← text m.typeName) ++ (← map (Marker.Value.encode depth) m.values.entries)

def Marker.decode : Nat → Decoder Marker
  | 0, _ => .error (.tooDeep "Marker")
  | depth + 1, bytes => do
    let (typeName, rest) ← decodeText bytes
    let (entries, rest) ← decodeMap (Marker.Value.decode depth) rest
    .ok (⟨typeName, .ofEntries entries⟩, rest)

def Field.encode : Nat → Field → Encoded
  | 0, _ => .error (.tooDeep "FieldDef")
  | depth + 1, f => do
    return (← text f.name) ++ (← f.type.encode depth) ++ word16 f.access
      ++ (← option (Constant.encode depth) f.constantValue)

def Field.decode : Nat → Decoder Field
  | 0, _ => .error (.tooDeep "FieldDef")
  | depth + 1, bytes => do
    let (name, rest) ← decodeText bytes
    let (type, rest) ← ValueType.decode depth rest
    let (access, rest) ← decodeWord16 rest
    let (constantValue, rest) ← decodeOption (Constant.decode depth) rest
    .ok (⟨name, type, access, constantValue⟩, rest)

def Method.encode : Nat → Method → Encoded
  | 0, _ => .error (.tooDeep "MethodDef")
  | depth + 1, m => do
    return (← text m.name) ++ (← m.signature.encode depth) ++ word16 m.access
      ++ (← option (Body.encode depth) m.body)
      ++ (← option (Marker.Value.encode depth) m.markerDefault)

def Method.decode : Nat → Decoder Method
  | 0, _ => .error (.tooDeep "MethodDef")
  | depth + 1, bytes => do
    let (name, rest) ← decodeText bytes
    let (signature, rest) ← Signature.decode depth rest
    let (access, rest) ← decodeWord16 rest
    let (body, rest) ← decodeOption (Body.decode depth) rest
    let (markerDefault, rest) ← decodeOption (Marker.Value.decode depth) rest
    .ok (⟨name, signature, access, body, markerDefault⟩, rest)

def Constructor.encode : Nat → Constructor → Encoded
  | 0, _ => .error (.tooDeep "ConstructorDef")
  | depth + 1, c => do
    return (← c.signature.encode depth) ++ word16 c.access
      ++ (← option (Body.encode depth) c.body)

def Constructor.decode : Nat → Decoder Constructor
  | 0, _ => .error (.tooDeep "ConstructorDef")
  | depth + 1, bytes => do
    let (signature, rest) ← Signature.decode depth bytes
    let (access, rest) ← decodeWord16 rest
    let (body, rest) ← decodeOption (Body.decode depth) rest
    .ok (⟨signature, access, body⟩, rest)

def Kind.variant : Kind → Nat
  | .classType => 0
  | .interfaceType => 1
  | .recordType => 2
  | .enumType => 3
  | .markerType => 4
  | .packageInfo => 5

def Kind.ofVariant : Nat → Kind
  | 0 => .classType
  | 1 => .interfaceType
  | 2 => .recordType
  | 3 => .enumType
  | 4 => .markerType
  | _ => .packageInfo

def Kind.encode : Nat → Kind → Encoded
  | 0, _ => .error (.tooDeep "TypeKind")
  | _ + 1, k => .ok (index k.variant)

def Kind.decode : Nat → Decoder Kind
  | 0, _ => .error (.tooDeep "TypeKind")
  | _ + 1, bytes => do
    let (variant, rest) ← decodeVariant 6 bytes
    .ok (.ofVariant variant, rest)

def Declaration.encode (depth : Nat) (d : Declaration) : Encoded := do
  return (← text d.name) ++ (← d.kind.encode depth) ++ word16 d.access
    ++ (← option text d.superType) ++ (← sequence text d.interfaces)
    ++ (← sequence (Marker.encode depth) d.markers) ++ (← sequence (Field.encode depth) d.fields)
    ++ (← sequence (Method.encode depth) d.methods)
    ++ (← sequence (Constructor.encode depth) d.constructors)

def Declaration.decode (depth : Nat) : Decoder Declaration := fun bytes => do
  let (name, rest) ← decodeText bytes
  let (kind, rest) ← Kind.decode depth rest
  let (access, rest) ← decodeWord16 rest
  let (superType, rest) ← decodeOption decodeText rest
  let (interfaces, rest) ← decodeSequence decodeText rest
  let (markers, rest) ← decodeSequence (Marker.decode depth) rest
  let (fields, rest) ← decodeSequence (Field.decode depth) rest
  let (methods, rest) ← decodeSequence (Method.decode depth) rest
  let (constructors, rest) ← decodeSequence (Constructor.decode depth) rest
  .ok (⟨name, kind, access, superType, interfaces, markers, fields, methods, constructors⟩, rest)

/-- The declaration and then the nested types, as one record. -/
def TypeDef.encode : Nat → TypeDef → Encoded
  | 0, _ => .error (.tooDeep "CompiledType")
  | depth + 1, t => do
    return (← t.toDeclaration.encode depth) ++ (← sequence (TypeDef.encode depth) t.nested)

def TypeDef.decode : Nat → Decoder TypeDef
  | 0, _ => .error (.tooDeep "CompiledType")
  | depth + 1, bytes => do
    let (declaration, rest) ← Declaration.decode depth bytes
    let (nested, rest) ← decodeSequence (TypeDef.decode depth) rest
    .ok (⟨declaration, nested⟩, rest)

namespace TypeDef

/-- The content of the type's file. -/
def toBytes (t : TypeDef) : Except Failure Utf8.Bytes :=
  (t.encode maxDepth).mapError fun cause => .malformed t.name (.wire cause)

/-- The type in a file; `context` names the file in an error. -/
def ofBytes (content : Utf8.Bytes) (context : String) : Except Failure TypeDef :=
  (complete (TypeDef.decode maxDepth) content).mapError fun cause =>
    .malformed context (.wire cause)

/-- The SHA-256 of the type's file. -/
def digest (t : TypeDef) : Except Failure String :=
  t.toBytes.map Sha256.hex

end TypeDef

end Mixins
