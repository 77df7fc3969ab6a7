import Mathlib.Data.List.Basic
import Mixins.Marker.Table

/-!
# When a property can be read

A property is declared by a method without parameters, its accessor. Its value is the one that the
marker gives or else the accessor's default, and it can be read in the one shape that it has. Of the
methods of one name only the first is looked at, so an accessor behind an overload with parameters
is not found.

* `Shape`, `Shape.read?_eq_some_iff` — the shapes in which a value can be asked for; what is read in
  one of them is the value that is written so.
* `accessor?`, `Hidden` — the accessor of a property, and whether an overload stands before it.
* `property?_eq_some_iff` — what a property is read as.
* `property?_hidden` — a declared property with a default that cannot be read.
-/

namespace Mixins.Marker

/-- The shapes in which a value can be asked for. -/
inductive Shape where
  | bool
  | int
  | str
  | typeRef
  | list (item : Shape)

namespace Shape

abbrev Result : Shape → Type
  | .bool => Bool
  | .int => Int64
  | .str => String
  | .typeRef => String
  | .list item => List item.Result

def read? : (shape : Shape) → Value → Option shape.Result
  | .bool => Value.bool?
  | .int => Value.int?
  | .str => Value.str?
  | .typeRef => Value.typeRef?
  | .list item => Value.list? item.read?

/-- The value of a marker that is written so. -/
def write : (shape : Shape) → shape.Result → Value
  | .bool, b => .bool b
  | .int, n => .int n
  | .str, s => .str s
  | .typeRef, name => .typeRef name
  | .list item, results => .array (results.map item.write)

/-- A list is read as a whole or not at all. -/
theorem mapM_eq_some_iff {α β : Type} {read? : α → Option β} {write : β → α}
    (h : ∀ a b, read? a = some b ↔ a = write b) (items : List α) (results : List β) :
    items.mapM read? = some results ↔ items = results.map write := by
  induction items generalizing results with
  | nil => cases results <;> simp
  | cons a items ih =>
    rw [List.mapM_cons]
    cases results with
    | nil => simp [Option.bind_eq_some_iff]
    | cons b results => simp [Option.bind_eq_some_iff, h, ih]

/-- **What is read in a shape** is the value that is written so, and no other. -/
theorem read?_eq_some_iff (shape : Shape) (value : Value) (result : shape.Result) :
    shape.read? value = some result ↔ value = shape.write result := by
  induction shape generalizing value with
  | bool => cases value <;> simp [read?, write, Value.bool?]
  | int => cases value <;> simp [read?, write, Value.int?]
  | str => cases value <;> simp [read?, write, Value.str?]
  | typeRef => cases value <;> simp [read?, write, Value.typeRef?]
  | list item ih =>
    cases value with
    | array items =>
      rw [write, Value.array.injEq]
      exact mapM_eq_some_iff (fun value result => ih value result) items result
    | _ => simp [read?, write, Value.list?]

end Shape

variable {t : TypeDef} {property : String} {accessor : Method}

/-- The accessor of a property: the first method of that name that has no parameters, wherever it
stands among others. -/
def accessor? (t : TypeDef) (property : String) : Option Method :=
  t.methods.find? fun m => m.name == property && m.signature.params = []

/-- Whether the accessor of a property, if there is one, stands behind an overload with parameters:
the first method of that name has some. -/
def Hidden (t : TypeDef) (property : String) : Prop :=
  ∃ first, t.method? property = some first ∧ first.signature.params ≠ []

/-- The first item of all is the first of the good ones, unless it is not good itself. -/
theorem find?_and_iff {α : Type} (p good : α → Bool) (items : List α) (a : α) :
    items.find? p = some a ∧ good a = true ↔
      (¬ ∃ first, items.find? p = some first ∧ good first ≠ true) ∧
        items.find? (fun item => p item && good item) = some a := by
  induction items with
  | nil => simp
  | cons item items ih =>
    cases hp : p item with
    | false => simpa [hp] using ih
    | true =>
      rw [List.find?_cons_of_pos hp]
      cases hgood : good item with
      | false =>
        refine iff_of_false ?_ fun h => h.1 ⟨item, rfl, by simp [hgood]⟩
        rintro ⟨⟨⟩, ha⟩
        exact absurd ha (by simp [hgood])
      | true =>
        have hboth : (item :: items).find? (fun item => p item && good item) = some item :=
          List.find?_cons_of_pos (by simp [hp, hgood])
        rw [hboth]
        refine ⟨fun h => ⟨?_, h.1⟩, fun h => ⟨h.2, Option.some.inj h.2 ▸ hgood⟩⟩
        rintro ⟨first, ⟨⟩, hfirst⟩
        exact hfirst hgood

theorem method?_accessor_iff :
    t.method? property = some accessor ∧ accessor.signature.params = [] ↔
      ¬ Hidden t property ∧ accessor? t property = some accessor := by
  have hfirst := find?_and_iff (fun m : Method => m.name == property)
    (fun m => m.signature.params = []) t.methods accessor
  simpa [TypeDef.method?, Hidden, accessor?] using hfirst

namespace Reading

/-- The value of a property that has one. -/
theorem value?_eq_some_iff {r : Reading} {value : Value} : r.value? property = some value ↔
    ∃ accessor, (r.definition.method? property = some accessor ∧
      accessor.signature.params = []) ∧
        (r.marker.values.get? property <|> accessor.markerDefault) = some value := by
  unfold value?
  cases r.definition.method? property with
  | none => simp
  | some first => by_cases hparams : first.signature.params = [] <;> simp [hparams]

/-- **What a property is read as**, in whatever shape: the value that the marker gives, or else the
default of the accessor, read in that shape. But nothing is read if the first method of the
property's name has parameters, even if the accessor is declared behind it. -/
theorem property?_eq_some_iff (r : Reading) (property : String) (shape : Shape)
    (result : shape.Result) : r.property? property shape.read? = some result ↔
      ¬ Hidden r.definition property ∧ ∃ accessor,
        accessor? r.definition property = some accessor ∧
          (r.marker.values.get? property <|> accessor.markerDefault) =
            some (shape.write result) := by
  calc r.property? property shape.read? = some result
    _ ↔ r.value? property = some (shape.write result) := by
      simp [property?, Option.bind_eq_some_iff, shape.read?_eq_some_iff]
    _ ↔ _ := by
      simp only [value?_eq_some_iff, method?_accessor_iff, and_assoc, exists_and_left]

/-- A marker type that declares a property `p` with a default, behind a method `p` with a parameter.
-/
def overloaded : TypeDef :=
  let overload : Method := ⟨"p", ⟨[.int], .void⟩, publicAccess, none, none⟩
  { TypeDef.bare "m.A" .markerType with
    methods := [overload, propertyMethod "p" .int (some (.int 1))] }

/-- The property has an accessor and a default, and cannot be read; nor can it if the marker gives a
value. -/
theorem property?_hidden :
    accessor? overloaded "p" = some (propertyMethod "p" .int (some (.int 1))) ∧
      (⟨⟨"m.A", .empty⟩, overloaded⟩ : Reading).property? "p" Shape.int.read? = none ∧
      (⟨⟨"m.A", Properties.empty.insert "p" (.int 2)⟩, overloaded⟩ : Reading).property? "p"
        Shape.int.read? = none := by
  decide +kernel

end Reading

end Mixins.Marker
