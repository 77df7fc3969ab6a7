import Mixins.Marker

/-!
# Members

The types of values, and the fields, methods and constructors that a type declares. A body is code
that is never looked into, with a table of constants; constants and signatures are where a member
refers to types.
-/

namespace Mixins

/-! ## Value types and signatures -/

/-- The types of fields, parameters and results. -/
inductive ValueType where
  | void
  | bool
  | int
  | long
  | double
  | str
  | object (name : String)
  | array (element : ValueType)
  deriving DecidableEq, Repr, Inhabited

/-- As a descriptor shows it: an array is its element followed by a pair of brackets. -/
def ValueType.text : ValueType → String
  | .void => "void"
  | .bool => "boolean"
  | .int => "int"
  | .long => "long"
  | .double => "double"
  | .str => "string"
  | .object name => name
  | .array element => element.text ++ "[]"

structure Signature where
  params : List ValueType
  ret : ValueType
  deriving DecidableEq, Repr, Inhabited

/-- Parameters between parentheses, separated by commas, then the result. -/
def Signature.descriptor (s : Signature) : String :=
  "(" ++ ",".intercalate (s.params.map ValueType.text) ++ ")" ++ s.ret.text

/-! ## Members -/

inductive Constant where
  | int (n : Int64)
  | str (s : String)
  | typeRef (name : String)
  | fieldRef (owner name : String) (type : ValueType)
  | methodRef (owner name : String) (signature : Signature)
  deriving DecidableEq, Repr, Inhabited

structure Body where
  maxStack : UInt16
  maxLocals : UInt16
  code : List UInt8
  constants : List Constant
  deriving DecidableEq, Repr, Inhabited

structure Field where
  name : String
  type : ValueType
  access : UInt16
  constantValue : Option Constant
  deriving DecidableEq, Repr, Inhabited

structure Method where
  name : String
  signature : Signature
  access : UInt16
  body : Option Body
  markerDefault : Option Marker.Value
  deriving DecidableEq, Repr, Inhabited

structure Constructor where
  signature : Signature
  access : UInt16
  body : Option Body
  deriving DecidableEq, Repr, Inhabited

/-- The access of a public member. -/
def publicAccess : UInt16 := 1

/-- What tells a method from its overloads. -/
def Method.identity (m : Method) : String := m.name ++ m.signature.descriptor

def Constructor.identity (c : Constructor) : String := "<init>" ++ c.signature.descriptor

/-- Whether a member may be given this name. -/
def isMemberName (name : String) : Bool :=
  name ≠ "" && name.toList.all fun c => c ∉ ['.', ';', '[', '/']

end Mixins
