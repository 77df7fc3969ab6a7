import Mathlib.Data.List.Forall2
import Mixins.Proofs.Reference.Mapped

/-!
# What rebinding comes to

Rebinding works on values of eight kinds, from value types to methods. What it does is the same for
each of them: the references to the old owner and to the types nested in it move, all other
references stay, and so does whatever is no reference.

* `Rebindable` — a value of one of these kinds.
* `rebind_eq_self` — a value without references to the old owner stays as it is.
* `rebind_final` — if the two owners are apart, no reference to the old one is left, so that
  rebinding once more does nothing.
-/

namespace Mixins

/-- Whatever can be rebound. -/
inductive Rebindable where
  | valueType (v : ValueType)
  | signature (s : Signature)
  | constant (c : Constant)
  | body (b : Body)
  | field (f : Field)
  | method (m : Method)
  | ofConstructor (c : Constructor)
  | markerValue (v : Marker.Value)
  deriving DecidableEq

namespace Rebindable

def rebind (source destination : String) : Rebindable → Rebindable
  | .valueType v => .valueType (v.rebind source destination)
  | .signature s => .signature (s.rebind source destination)
  | .constant c => .constant (c.rebind source destination)
  | .body b => .body (b.rebind source destination)
  | .field f => .field (f.rebind source destination)
  | .method m => .method (m.rebind source destination)
  | .ofConstructor c => .ofConstructor (c.rebind source destination)
  | .markerValue v => .markerValue (v.rebind source destination)

/-- The names by which the value refers to types. -/
def references : Rebindable → List String
  | .valueType v => v.references
  | .signature s => s.references
  | .constant c => c.references
  | .body b => b.references
  | .field f => f.references
  | .method m => m.references
  | .ofConstructor c => c.references
  | .markerValue v => v.references

def mapReferences (f : String → String) : Rebindable → Rebindable
  | .valueType v => .valueType (v.mapReferences f)
  | .signature s => .signature (s.mapReferences f)
  | .constant c => .constant (c.mapReferences f)
  | .body b => .body (b.mapReferences f)
  | .field x => .field (x.mapReferences f)
  | .method m => .method (m.mapReferences f)
  | .ofConstructor c => .ofConstructor (c.mapReferences f)
  | .markerValue v => .markerValue (v.mapReferences f)

/-- All of the value but its references, which are blank: its texts, the names of members, code,
numbers, and where each of them stands. -/
def withoutReferences (x : Rebindable) : Rebindable := x.mapReferences fun _ => ""

variable {source destination : String} (x : Rebindable)

theorem references_rebind : (x.rebind source destination).references =
    x.references.map (Name.rebind · source destination) := by
  cases x with
  | valueType v => exact v.references_rebind source destination
  | signature s => exact s.references_rebind source destination
  | constant c => exact c.references_rebind source destination
  | body b => exact b.references_rebind source destination
  | field f => exact f.references_rebind source destination
  | method m => exact m.references_rebind source destination
  | ofConstructor c => exact c.references_rebind source destination
  | markerValue v => exact v.references_rebind source destination

theorem rebind_eq_mapReferences :
    x.rebind source destination = x.mapReferences (Name.rebind · source destination) := by
  cases x with
  | valueType v => exact congrArg _ (v.rebind_eq_mapReferences source destination)
  | signature s => exact congrArg _ (s.rebind_eq_mapReferences source destination)
  | constant c => exact congrArg _ (c.rebind_eq_mapReferences source destination)
  | body b => exact congrArg _ (b.rebind_eq_mapReferences source destination)
  | field f => exact congrArg _ (f.rebind_eq_mapReferences source destination)
  | method m => exact congrArg _ (m.rebind_eq_mapReferences source destination)
  | ofConstructor c => exact congrArg _ (c.rebind_eq_mapReferences source destination)
  | markerValue v => exact congrArg _ (v.rebind_eq_mapReferences source destination)

theorem mapReferences_mapReferences (f g : String → String) :
    (x.mapReferences f).mapReferences g = x.mapReferences fun r => g (f r) := by
  cases x with
  | valueType v => exact congrArg _ (v.mapReferences_mapReferences f g)
  | signature s => exact congrArg _ (s.mapReferences_mapReferences f g)
  | constant c => exact congrArg _ (c.mapReferences_mapReferences f g)
  | body b => exact congrArg _ (b.mapReferences_mapReferences f g)
  | field x => exact congrArg _ (x.mapReferences_mapReferences f g)
  | method m => exact congrArg _ (m.mapReferences_mapReferences f g)
  | ofConstructor c => exact congrArg _ (c.mapReferences_mapReferences f g)
  | markerValue v => exact congrArg _ (v.mapReferences_mapReferences f g)

variable {x}

theorem mapReferences_eq_self {f : String → String} (h : ∀ r ∈ x.references, f r = r) :
    x.mapReferences f = x := by
  cases x with
  | valueType v => exact congrArg _ (ValueType.mapReferences_eq_self h)
  | signature s => exact congrArg _ (Signature.mapReferences_eq_self h)
  | constant c => exact congrArg _ (Constant.mapReferences_eq_self h)
  | body b => exact congrArg _ (Body.mapReferences_eq_self h)
  | field x => exact congrArg _ (Field.mapReferences_eq_self h)
  | method m => exact congrArg _ (Method.mapReferences_eq_self h)
  | ofConstructor c => exact congrArg _ (Constructor.mapReferences_eq_self h)
  | markerValue v => exact congrArg _ (Marker.Value.mapReferences_eq_self h)

/-- A value that does not refer to the old owner stays as it is. -/
theorem rebind_eq_self (h : ∀ r ∈ x.references, ¬ Name.Within source r) :
    x.rebind source destination = x := by
  rw [rebind_eq_mapReferences]
  exact mapReferences_eq_self fun r hr => Name.rebind_of_not_within destination (h r hr)

variable (x)

theorem withoutReferences_rebind :
    (x.rebind source destination).withoutReferences = x.withoutReferences := by
  rw [withoutReferences, rebind_eq_mapReferences, mapReferences_mapReferences, withoutReferences]

/-- Reference by reference, those that are not to the old owner are as they were. -/
theorem forall₂_references_rebind :
    List.Forall₂ (fun r r' => ¬ Name.Within source r → r' = r) x.references
      (x.rebind source destination).references := by
  rw [references_rebind, List.forall₂_map_right_iff, List.forall₂_same]
  exact fun r _ hr => Name.rebind_of_not_within destination hr

/-- If the owners are apart, no reference to the old one is left. -/
theorem references_rebind_apart (houter : ¬ Name.Within source destination)
    (hinner : ¬ Name.Within destination source) :
    ∀ r ∈ (x.rebind source destination).references, ¬ Name.Within source r := by
  intro r hr
  rw [references_rebind] at hr
  refine not_within_of_mem_map_rebind (fun _ _ => id) (fun name hname hboth => ?_) hr
  rcases Name.within_or_within hname hboth with h | h
  · exact hinner h
  · exact houter h

/-- **Rebinding is final.** If neither owner is the other one or nested in it, then of what a value
refers to nothing is the old owner or nested in it after rebinding, and rebinding once more changes
nothing. The other references are as they were, each in its place, and so is all that is no
reference: texts, names of members, code. -/
theorem rebind_final (houter : ¬ Name.Within source destination)
    (hinner : ¬ Name.Within destination source) :
    (∀ r ∈ (x.rebind source destination).references, ¬ Name.Within source r) ∧
      (x.rebind source destination).rebind source destination = x.rebind source destination ∧
      List.Forall₂ (fun r r' => ¬ Name.Within source r → r' = r) x.references
        (x.rebind source destination).references ∧
      (x.rebind source destination).withoutReferences = x.withoutReferences := by
  have hfree := x.references_rebind_apart houter hinner
  exact ⟨hfree, rebind_eq_self hfree, x.forall₂_references_rebind, x.withoutReferences_rebind⟩

/-- A method with references to the old owner, to a type nested in it and to one whose name only
begins like its name; and with a text that spells the old owner's name. -/
theorem rebind_final_method :
    let x := method ⟨"a.M", ⟨[.array (.object "a.M$A"), .object "a.Mixin"], .object "a.M"⟩,
      publicAccess, some ⟨1, 1, [97, 46, 77], [.str "a.M", .fieldRef "a.M" "a.M" .int]⟩,
      some (.array [.typeRef "a.M$A$B", .str "a.M"])⟩
    let y := method ⟨"a.M", ⟨[.array (.object "b.T$A"), .object "a.Mixin"], .object "b.T"⟩,
      publicAccess, some ⟨1, 1, [97, 46, 77], [.str "a.M", .fieldRef "b.T" "a.M" .int]⟩,
      some (.array [.typeRef "b.T$A$B", .str "a.M"])⟩
    (¬ Name.Within "a.M" "b.T" ∧ ¬ Name.Within "b.T" "a.M") ∧
    x.rebind "a.M" "b.T" = y ∧ y.rebind "a.M" "b.T" = y := by
  intro x y
  have houter : ¬ Name.Within "a.M" "b.T" := by decide
  have hinner : ¬ Name.Within "b.T" "a.M" := by decide
  have hy : x.rebind "a.M" "b.T" = y := by decide
  obtain ⟨-, htwice, -, -⟩ := x.rebind_final houter hinner
  rw [hy] at htwice
  exact ⟨⟨houter, hinner⟩, hy, htwice⟩

end Rebindable

end Mixins
