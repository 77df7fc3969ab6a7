import Mixins.Proofs.Tree
import Mixins.Rebind

/-!
# Depths and lengths

Two things about a value are limited in the binary format: how deep its containers are nested, and
how long the texts and lists in it are. A record is a container and so is a variant; a text, a list,
a map and an option are none, but what is in them stands inside the container around them.

* `depth` — how many containers stand inside one another, for each kind of value.
* `lengths` — the lengths of all texts and lists in a value, for each kind. The maps, which only
  markers have, are counted apart, in `mapLengths`.
* `Method.depth_rebind` and its siblings — rebinding does not change the depth.
-/

namespace Mixins

/-! ## Depths -/

/-- The depth of the deepest item; 0 if there is none. -/
def deepest {α : Type} (depth : α → Nat) (items : List α) : Nat := (items.map depth).foldr max 0

theorem deepest_le_iff {α : Type} {depth : α → Nat} {items : List α} {bound : Nat} :
    deepest depth items ≤ bound ↔ ∀ x ∈ items, depth x ≤ bound := by
  induction items with
  | nil => simp [deepest]
  | cons x items ih =>
    rw [List.forall_mem_cons, ← ih]
    exact Nat.max_le

theorem deepest_map {α : Type} {depth : α → Nat} {f : α → α} (h : ∀ x, depth (f x) = depth x)
    (items : List α) : deepest depth (items.map f) = deepest depth items := by
  simp only [deepest, List.map_map, Function.comp_def, h]

def ValueType.depth : ValueType → Nat
  | .array element => element.depth + 1
  | _ => 1

def Signature.depth (s : Signature) : Nat :=
  max (deepest ValueType.depth s.params) s.ret.depth + 1

def Constant.depth : Constant → Nat
  | .fieldRef _ _ type => type.depth + 1
  | .methodRef _ _ signature => signature.depth + 1
  | _ => 1

def Body.depth (b : Body) : Nat := deepest Constant.depth b.constants + 1

mutual
def Marker.Value.depth : Marker.Value → Nat
  | .array items => Marker.Value.depthOfAll items + 1
  | _ => 1
def Marker.Value.depthOfAll : List Marker.Value → Nat
  | [] => 0
  | item :: items => max item.depth (depthOfAll items)
end

theorem Marker.Value.depthOfAll_eq_deepest (items : List Marker.Value) :
    depthOfAll items = deepest depth items := by
  induction items with
  | nil => rfl
  | cons item items ih =>
    rw [depthOfAll, ih]
    rfl

def Marker.depth (m : Marker) : Nat :=
  deepest (fun (_, value) => Marker.Value.depth value) m.values.entries + 1

def Field.depth (f : Field) : Nat :=
  max f.type.depth (deepest Constant.depth f.constantValue.toList) + 1

def Method.depth (m : Method) : Nat :=
  max m.signature.depth (max (deepest Body.depth m.body.toList)
    (deepest Marker.Value.depth m.markerDefault.toList)) + 1

def Constructor.depth (c : Constructor) : Nat :=
  max c.signature.depth (deepest Body.depth c.body.toList) + 1

/-- The depth of what a type declares by itself. Its kind is a variant, so it is not 0. -/
def Declaration.depth (d : Declaration) : Nat :=
  max 1 (max (deepest Marker.depth d.markers) (max (deepest Field.depth d.fields)
    (max (deepest Method.depth d.methods) (deepest Constructor.depth d.constructors))))

namespace TypeDef

mutual
def depth : TypeDef → Nat
  | ⟨declaration, nested⟩ => max declaration.depth (depthOfAll nested) + 1
def depthOfAll : List TypeDef → Nat
  | [] => 0
  | t :: ts => max t.depth (depthOfAll ts)
end

theorem depthOfAll_eq_deepest (ts : List TypeDef) : depthOfAll ts = deepest depth ts := by
  induction ts with
  | nil => rfl
  | cons t ts ih =>
    rw [depthOfAll, ih]
    rfl

theorem depth_eq (t : TypeDef) :
    t.depth = max t.toDeclaration.depth (deepest depth t.nested) + 1 := by
  obtain ⟨d, nested⟩ := t
  rw [depth, depthOfAll_eq_deepest]

end TypeDef

/-! ## Lengths -/

/-- The length of a list and the lengths in its items. -/
def listLengths {α : Type} (lengths : α → List Nat) (items : List α) : List Nat :=
  items.length :: items.flatMap lengths

/-- The length of a text, in bytes. -/
def textLengths (s : String) : List Nat := [s.utf8ByteSize]

def ValueType.lengths : ValueType → List Nat
  | .object name => textLengths name
  | .array element => element.lengths
  | _ => []

def Signature.lengths (s : Signature) : List Nat :=
  listLengths ValueType.lengths s.params ++ s.ret.lengths

def Constant.lengths : Constant → List Nat
  | .int _ => []
  | .str s => textLengths s
  | .typeRef name => textLengths name
  | .fieldRef owner name type => textLengths owner ++ textLengths name ++ type.lengths
  | .methodRef owner name signature => textLengths owner ++ textLengths name ++ signature.lengths

def Body.lengths (b : Body) : List Nat :=
  b.code.length :: listLengths Constant.lengths b.constants

mutual
def Marker.Value.lengths : Marker.Value → List Nat
  | .str s => textLengths s
  | .typeRef name => textLengths name
  | .array items => items.length :: Marker.Value.lengthsOfAll items
  | .bool _ | .int _ => []
def Marker.Value.lengthsOfAll : List Marker.Value → List Nat
  | [] => []
  | item :: items => item.lengths ++ lengthsOfAll items
end

theorem Marker.Value.lengthsOfAll_eq_flatMap (items : List Marker.Value) :
    lengthsOfAll items = items.flatMap lengths := by
  induction items with
  | nil => rfl
  | cons item items ih => rw [lengthsOfAll, ih, List.flatMap_cons]

def Marker.lengths (m : Marker) : List Nat :=
  textLengths m.typeName ++
    m.values.entries.flatMap fun (name, value) => textLengths name ++ value.lengths

/-- How many properties the marker has values for. -/
def Marker.mapLengths (m : Marker) : List Nat := [m.values.entries.length]

def Field.lengths (f : Field) : List Nat :=
  textLengths f.name ++ f.type.lengths ++ f.constantValue.toList.flatMap Constant.lengths

def Method.lengths (m : Method) : List Nat :=
  textLengths m.name ++ m.signature.lengths ++ m.body.toList.flatMap Body.lengths ++
    m.markerDefault.toList.flatMap Marker.Value.lengths

def Constructor.lengths (c : Constructor) : List Nat :=
  c.signature.lengths ++ c.body.toList.flatMap Body.lengths

def Declaration.lengths (d : Declaration) : List Nat :=
  textLengths d.name ++ d.superType.toList.flatMap textLengths ++
    listLengths textLengths d.interfaces ++ listLengths Marker.lengths d.markers ++
    listLengths Field.lengths d.fields ++ listLengths Method.lengths d.methods ++
    listLengths Constructor.lengths d.constructors

def Declaration.mapLengths (d : Declaration) : List Nat := d.markers.flatMap Marker.mapLengths

namespace TypeDef

/-- The lengths of all texts and lists in the type, at every depth. -/
def lengths (t : TypeDef) : List Nat :=
  t.types.flatMap fun x => x.toDeclaration.lengths ++ [x.nested.length]

/-- The lengths of all maps in the type, at every depth. -/
def mapLengths (t : TypeDef) : List Nat := t.types.flatMap fun x => x.toDeclaration.mapLengths

theorem lengths_eq (t : TypeDef) :
    t.lengths = t.toDeclaration.lengths ++ listLengths lengths t.nested := by
  rw [lengths, types_eq, List.flatMap_cons, List.flatMap_assoc, List.append_assoc]
  rfl

theorem mapLengths_eq (t : TypeDef) :
    t.mapLengths = t.toDeclaration.mapLengths ++ t.nested.flatMap mapLengths := by
  rw [mapLengths, types_eq, List.flatMap_cons, List.flatMap_assoc]
  rfl

end TypeDef

/-! ## The depth after rebinding -/

section

variable (source destination : String)

theorem ValueType.depth_rebind (v : ValueType) : (v.rebind source destination).depth = v.depth := by
  induction v with
  | array element ih => rw [rebind, depth, ih, depth]
  | object | void | bool | int | long | double | str => rfl

theorem Signature.depth_rebind (s : Signature) : (s.rebind source destination).depth = s.depth := by
  rw [rebind, depth, deepest_map (ValueType.depth_rebind source destination),
    ValueType.depth_rebind, depth]

theorem Constant.depth_rebind (c : Constant) : (c.rebind source destination).depth = c.depth := by
  cases c with
  | fieldRef owner name type => rw [rebind, depth, ValueType.depth_rebind, depth]
  | methodRef owner name signature => rw [rebind, depth, Signature.depth_rebind, depth]
  | int | str | typeRef => rfl

theorem Body.depth_rebind (b : Body) : (b.rebind source destination).depth = b.depth :=
  congrArg (· + 1) (deepest_map (Constant.depth_rebind source destination) b.constants)

mutual
theorem Marker.Value.depth_rebind : ∀ v : Marker.Value,
    (v.rebind source destination).depth = v.depth
  | .array items => congrArg (· + 1) (Marker.Value.depthOfAll_rebindAll items)
  | .bool _ | .int _ | .str _ | .typeRef _ => rfl
theorem Marker.Value.depthOfAll_rebindAll : ∀ items : List Marker.Value,
    depthOfAll (rebindAll source destination items) = depthOfAll items
  | [] => rfl
  | item :: items => by
    have hitem := Marker.Value.depth_rebind item
    have hitems := Marker.Value.depthOfAll_rebindAll items
    rw [rebindAll, depthOfAll, hitem, hitems, depthOfAll]
end

/-- As `deepest_map`, for a part that a member may lack. -/
theorem deepest_toList_map {α : Type} {depth : α → Nat} {f : α → α}
    (h : ∀ x, depth (f x) = depth x) (part : Option α) :
    deepest depth (part.map f).toList = deepest depth part.toList := by
  rw [Option.toList_map]
  exact deepest_map h part.toList

theorem Field.depth_rebind (f : Field) : (f.rebind source destination).depth = f.depth := by
  rw [rebind, depth, ValueType.depth_rebind,
    deepest_toList_map (Constant.depth_rebind source destination), depth]

theorem Method.depth_rebind (m : Method) : (m.rebind source destination).depth = m.depth := by
  rw [rebind, depth, Signature.depth_rebind,
    deepest_toList_map (Body.depth_rebind source destination),
    deepest_toList_map (Marker.Value.depth_rebind source destination), depth]

theorem Constructor.depth_rebind (c : Constructor) :
    (c.rebind source destination).depth = c.depth := by
  rw [rebind, depth, Signature.depth_rebind,
    deepest_toList_map (Body.depth_rebind source destination), depth]

end

end Mixins
