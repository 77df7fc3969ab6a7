import Mixins.Member
import Mixins.Name

/-!
# Type definitions

A compiled type: its own declaration, and the definitions of the types nested in it.

Look-ups take the first member or nested type that fits, since the lists may hold several of one
name.
-/

namespace Mixins

inductive Kind where
  | classType
  | interfaceType
  | recordType
  | enumType
  | markerType
  | packageInfo
  deriving DecidableEq, Repr, Inhabited

/-- What a type declares by itself, nested types apart. -/
structure Declaration where
  name : String
  kind : Kind
  access : UInt16
  superType : Option String
  interfaces : List String
  markers : List Marker
  fields : List Field
  methods : List Method
  constructors : List Constructor
  deriving DecidableEq, Inhabited

structure TypeDef extends Declaration where
  nested : List TypeDef

namespace TypeDef

instance : Inhabited TypeDef := ⟨⟨default, []⟩⟩

mutual
def decEq : ∀ a b : TypeDef, Decidable (a = b)
  | ⟨a, as⟩, ⟨b, bs⟩ =>
    match (inferInstance : Decidable (a = b)), listDecEq as bs with
    | isTrue h, isTrue hs => isTrue (by rw [h, hs])
    | isFalse h, _ => isFalse fun heq => h (TypeDef.mk.inj heq).1
    | _, isFalse hs => isFalse fun heq => hs (TypeDef.mk.inj heq).2
def listDecEq : ∀ as bs : List TypeDef, Decidable (as = bs)
  | [], [] => isTrue rfl
  | [], _ :: _ | _ :: _, [] => isFalse (by simp)
  | a :: as, b :: bs =>
    match decEq a b, listDecEq as bs with
    | isTrue h, isTrue hs => isTrue (by rw [h, hs])
    | isFalse h, _ => isFalse fun heq => h (List.cons.inj heq).1
    | _, isFalse hs => isFalse fun heq => hs (List.cons.inj heq).2
end

instance : DecidableEq TypeDef := decEq

/-- A public type that declares nothing. -/
def bare (name : String) (kind : Kind) : TypeDef :=
  ⟨⟨name, kind, publicAccess, none, [], [], [], [], []⟩, []⟩

def simpleName (t : TypeDef) : String := Name.simple t.name

/-- The name the type was declared with. -/
def innerName (t : TypeDef) : String := Name.inner t.name

def marker? (t : TypeDef) (typeName : String) : Option Marker :=
  t.markers.find? (·.typeName == typeName)

def field? (t : TypeDef) (name : String) : Option Field :=
  t.fields.find? (·.name == name)

def method? (t : TypeDef) (name : String) : Option Method :=
  t.methods.find? (·.name == name)

def hasField (t : TypeDef) (name : String) : Bool := (t.field? name).isSome

def hasMethod (t : TypeDef) (name : String) : Bool := (t.method? name).isSome

def nestedType? (t : TypeDef) (inner : String) : Option TypeDef :=
  t.nested.find? (·.innerName == inner)

/-- The type reached by going down through the declared names in `chain`. -/
def descendant? (t : TypeDef) : List String → Option TypeDef
  | [] => some t
  | inner :: chain => (t.nestedType? inner).bind fun n => n.descendant? chain

/-- Applies `f` to the type that `descendant?` finds, in its place. -/
def modifyDescendant? (t : TypeDef) (f : TypeDef → TypeDef) : List String → Option TypeDef
  | [] => some (f t)
  | inner :: chain =>
    (t.nested.findIdx? (·.innerName == inner)).bind fun i =>
      (t.nested[i]?).bind fun n =>
        (n.modifyDescendant? f chain).map fun n => { t with nested := t.nested.set i n }

/-- How many members the type declares, those of nested types not counted. -/
def memberCount (t : TypeDef) : Nat :=
  t.methods.length + t.fields.length + t.constructors.length

end TypeDef

end Mixins
