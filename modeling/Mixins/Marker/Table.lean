import Mixins.Failure

/-!
# Marker definitions

A marker is understood through the definition of its marker type. Definitions come from a source of
types; only a name that the source does not find is looked for among the host definitions. A
definition that was found once is kept.

Principal statements: `definition_known` — a definition that is kept is not looked for again;
`resolve_ok_kind` — whatever counts as a definition is a marker type.
-/

namespace Mixins

/-- A source of types that may change as it is asked. -/
abbrev TypeSource (σ : Type) := String → StateM σ (Except Failure TypeDef)

namespace Marker

structure Table where
  /-- A later definition stands for an earlier one of the same name. -/
  hosts : List TypeDef
  known : List (String × TypeDef)
  deriving DecidableEq, Inhabited

/-- Looking things up in a source of types and a table of definitions. -/
abbrev Lookup (σ : Type) := StateT Table (StateM σ)

namespace Table

def ofHosts (hosts : List TypeDef) : Table := ⟨hosts, []⟩

def host? (table : Table) (name : String) : Option TypeDef :=
  table.hosts.reverse.find? (·.name == name)

/-- What the source answered, or the host definition if the source did not find the name. -/
def candidate (table : Table) (name : String) : Except Failure TypeDef → Except Failure TypeDef
  | .ok t => .ok t
  | .error cause =>
    if cause.isNotFound then
      match table.host? name with
      | some t => .ok t
      | none => .error (.notFound name)
    else .error cause

/-- The definition of the given name, once the source has answered. -/
def resolve (table : Table) (name : String) (answer : Except Failure TypeDef) :
    Except Failure TypeDef :=
  match table.candidate name answer with
  | .error cause => .error cause
  | .ok t =>
    if t.kind = .markerType then .ok t else .error (.malformed name (.notMarker t.kind))

theorem resolve_ok_kind {table : Table} {name : String} {answer : Except Failure TypeDef}
    {t : TypeDef} (h : table.resolve name answer = .ok t) : t.kind = .markerType := by
  unfold resolve at h
  split at h
  · cases h
  · split at h
    · rename_i hkind
      exact Except.ok.inj h ▸ hkind
    · cases h

end Table

/-- The definition of a marker type. -/
def definition {σ : Type} (load : TypeSource σ) (name : String) :
    Lookup σ (Except Failure TypeDef) := do
  let table ← get
  match table.known.lookup name with
  | some t => return .ok t
  | none =>
    let found := table.resolve name (← load name)
    if let .ok t := found then
      set { table with known := (name, t) :: table.known }
    return found

theorem definition_known {σ : Type} (load : TypeSource σ) {name : String} {table : Table}
    {t : TypeDef} (h : table.known.lookup name = some t) (s : σ) :
    ((definition load name).run table).run s = ((.ok t, table), s) := by
  simp [definition, h]
  rfl

/-- A marker of a type, with the definition of its marker type. -/
structure Reading where
  marker : Marker
  definition : TypeDef
  deriving DecidableEq, Inhabited

/-- The marker of the given type on an element, if the marker type has a definition. -/
def read {σ : Type} (load : TypeSource σ) (element : TypeDef) (name : String) :
    Lookup σ (Option Reading) := do
  match ← definition load name with
  | .error _ => return none
  | .ok t => return (element.marker? name).map fun marker => ⟨marker, t⟩

namespace Reading

/-- The value of a property: as the marker gives it, or else the default. Only a property that the
marker type declares, by a method without parameters, has a value. -/
def value? (r : Reading) (property : String) : Option Marker.Value :=
  match r.definition.method? property with
  | none => none
  | some accessor =>
    if accessor.signature.params = [] then
      r.marker.values.get? property <|> accessor.markerDefault
    else none

/-- The value of a property in the shape that `read?` reads. -/
def property? {α : Type} (r : Reading) (property : String) (read? : Marker.Value → Option α) :
    Option α :=
  (r.value? property).bind read?

end Reading

/-! ## Host definitions

The marker types of library packages and of mixins as they are known without any module. A library
package lists its mixins; a mixin names its target. -/

/-- The property of a library package. -/
def mixinsProperty : String := "mixins"

/-- The property of a mixin. -/
def targetProperty : String := "target"

def classType : ValueType := .object "typeweave.lang.Class"

/-- A parameterless method that declares a property. -/
def propertyMethod (name : String) (type : ValueType) (value : Option Marker.Value) : Method :=
  ⟨name, ⟨[], type⟩, publicAccess, none, value⟩

/-- A marker type that declares one property. -/
def markerType (name : String) (property : Method) : TypeDef :=
  { TypeDef.bare name .markerType with methods := [property] }

def hostRoot (name : String) : TypeDef :=
  markerType name (propertyMethod mixinsProperty (.array classType) (some (.array [])))

def hostMixin (name : String) : TypeDef :=
  markerType name (propertyMethod targetProperty classType none)

def hostDefinitions (rootMarker mixinMarker : String) : List TypeDef :=
  [hostRoot rootMarker, hostMixin mixinMarker]

end Marker

end Mixins
