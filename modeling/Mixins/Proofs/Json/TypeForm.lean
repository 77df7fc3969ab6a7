import Mixins.Json.TypeForm
import Mixins.Proofs.Json.Document
import Mixins.Proofs.Json.Reader
import Mixins.Proofs.Wire.TypeFile

/-!
# Type definitions are read back from JSON

Each kind of record is read back from its form, and the depth is spent as the form is nested: one
level for a record or a variant, one for an array in it. The cases follow the declarations of the
types, from the parts to the whole.

* `ValueType.inverts`, `Constant.inverts`, `Marker.Value.inverts`, … `TypeDef.inverts` — the reader
  of each kind inverts its writer.
* `TypeDef.parse?_pretty_eq_ite` — the text of a type spells the type, unless more than
  `Json.maxDepth` arrays and objects are nested in it; then it spells none.
-/

namespace Mixins

open Json

/-! ## Scalars -/

theorem Json.between?_int {low high n : Int} (hlow : low ≤ n) (hhigh : n ≤ high) :
    between? low high (.int n) = some n := if_pos ⟨hlow, hhigh⟩

theorem Json.string?_ofString (s : String) : (ofString s).string? = some s := rfl

theorem Json.word16?_toNat (w : UInt16) : word16? (.int w.toNat) = some w := by
  have hw := w.toNat_lt
  rw [word16?, between?_int (by omega) (by omega)]
  simp

theorem Json.byte?_toNat (b : UInt8) : byte? (.int b.toNat) = some b := by
  have hb := b.toNat_lt
  rw [byte?, between?_int (by omega) (by omega)]
  simp

theorem Json.int64?_toInt (n : Int64) : int64? (.int n.toInt) = some n := by
  have hlow := n.le_toInt
  have hhigh := n.toInt_lt
  rw [int64?, between?_int (by omega) (by omega)]
  simp

theorem Json.inverts_string : Inverts (fun _ => string?) ofString := fun _ => spells_leaf rfl rfl

theorem Json.inverts_byte : Inverts (fun _ => byte?) fun b => .int b.toNat :=
  fun b => spells_leaf rfl (byte?_toNat b)

theorem Json.inverts_int64 : Inverts (fun _ => int64?) fun n => .int n.toInt :=
  fun n => spells_leaf rfl (int64?_toInt n)

theorem Json.depth_ofString (s : String) : (ofString s).depth = 0 := rfl

theorem Json.depth_int (n : Int) : (Json.int n).depth = 0 := rfl

/-! ## Members -/

theorem ValueType.inverts : Inverts ValueType.ofJson? ValueType.toJson := by
  intro t
  induction t with
  | object name => exact spells_variant (inverts_string name) rfl fun _ => rfl
  | array element ih => exact spells_variant ih rfl fun _ => rfl
  | _ => rintro (_ | depth) <;> rfl

theorem Signature.inverts : Inverts Signature.ofJson? Signature.toJson := by
  refine fun s => spells_record rfl fun depth => ?_
  have hrecord : record? ["params", "ret"] 2 (depth + 1) s.toJson = some (depth, _) :=
    record?_ofMembers (by simp) 2 depth
  have hparams := inverts_list ValueType.inverts s.params depth
  have hret := ValueType.inverts s.ret depth
  rw [toJson] at hrecord
  rw [ofJson?, hrecord]
  simp [hparams, hret, bind_fits, ← ite_and]

theorem Constant.spells_fieldRef (owner name : String) (type : ValueType) :
    Spells fieldRef? (ofMembers
      [("owner", ofString owner), ("name", ofString name), ("ty", type.toJson)])
      (.fieldRef owner name type) := by
  refine spells_record rfl fun depth => ?_
  have hrecord : record? ["owner", "name", "ty"] 3 (depth + 1) (ofMembers
      [("owner", ofString owner), ("name", ofString name), ("ty", type.toJson)])
        = some (depth, _) :=
    record?_ofMembers (by simp) 3 depth
  have htype := ValueType.inverts type depth
  rw [fieldRef?, hrecord]
  simp [string?_ofString, htype, bind_fits, depth_ofString]

theorem Constant.spells_methodRef (owner name : String) (signature : Signature) :
    Spells methodRef? (ofMembers
      [("owner", ofString owner), ("name", ofString name), ("signature", signature.toJson)])
      (.methodRef owner name signature) := by
  refine spells_record rfl fun depth => ?_
  have hrecord : record? ["owner", "name", "signature"] 3 (depth + 1) (ofMembers
      [("owner", ofString owner), ("name", ofString name), ("signature", signature.toJson)])
        = some (depth, _) :=
    record?_ofMembers (by simp) 3 depth
  have hsignature := Signature.inverts signature depth
  rw [methodRef?, hrecord]
  simp [string?_ofString, hsignature, bind_fits, depth_ofString]

theorem Constant.inverts : Inverts Constant.ofJson? Constant.toJson := by
  rintro (n | s | name | ⟨owner, name, type⟩ | ⟨owner, name, signature⟩)
  · exact spells_variant (inverts_int64 n) rfl fun _ => rfl
  · exact spells_variant (inverts_string s) rfl fun _ => rfl
  · exact spells_variant (inverts_string name) rfl fun _ => rfl
  · exact spells_variant (f := id) (spells_fieldRef owner name type) rfl
      fun _ => Option.map_id'.symm
  · exact spells_variant (f := id) (spells_methodRef owner name signature) rfl
      fun _ => Option.map_id'.symm

theorem Body.inverts : Inverts Body.ofJson? Body.toJson := by
  refine fun b => spells_record rfl fun depth => ?_
  have hrecord : record? ["max_stack", "max_locals", "code", "constants"] 4 (depth + 1) b.toJson
      = some (depth, _) :=
    record?_ofMembers (by simp) 4 depth
  have hcode := inverts_list inverts_byte b.code depth
  have hconstants := inverts_list Constant.inverts b.constants depth
  rw [toJson] at hrecord
  rw [ofJson?, hrecord]
  simp [word16?_toNat, hcode, hconstants, bind_fits, depth_int, ← ite_and]

/-! ## Markers -/

theorem Marker.Value.toJsonAll_eq_map (items : List Marker.Value) :
    toJsonAll items = items.map toJson := by
  induction items with
  | nil => rfl
  | cons item items ih => rw [toJsonAll, ih, List.map_cons]

theorem Marker.Value.inverts : Inverts Marker.Value.ofJson? Marker.Value.toJson := by
  intro v depth
  -- An array is two levels in one step of the reader.
  induction depth using Nat.strongRecOn generalizing v with
  | ind depth ih =>
    cases v with
    | bool b =>
      have hbool : Spells Value.ofJson? (ofMembers [("bool", .bool b)]) (.bool b) :=
        spells_record rfl fun _ => rfl
      exact hbool depth
    | int n => exact spells_variant (inverts_int64 n) rfl (fun _ => rfl) depth
    | str s => exact spells_variant (inverts_string s) rfl (fun _ => rfl) depth
    | typeRef name => exact spells_variant (inverts_string name) rfl (fun _ => rfl) depth
    | array items =>
      rw [toJson, toJsonAll_eq_map]
      match depth with
      | 0 => exact (if_neg (not_depth_ofMembers_le_zero _)).symm
      | 1 =>
        have hdeep : ¬ (ofMembers [("array", Json.arr (items.map toJson))]).depth ≤ 0 + 1 :=
          fun h => not_depth_arr_le_zero _ (depth_ofMembers_le.1 h _ List.mem_cons_self)
        exact (if_neg hdeep).symm
      | depth + 2 =>
        have hitems := mapM_fits (g := id) fun item (_ : item ∈ items) => ih depth (by omega) item
        have hread : ofJson? (depth + 2) (ofMembers [("array", .arr (items.map toJson))])
          = ((items.map toJson).mapM (ofJson? depth)).map .array := rfl
        rw [hread, hitems]
        simp [depth_ofMembers_le, depth_arr_le]

theorem Marker.inverts : Inverts Marker.ofJson? Marker.toJson := by
  refine fun m => spells_record rfl fun depth => ?_
  have hrecord : record? ["type_name", "values"] 2 (depth + 1) m.toJson = some (depth, _) :=
    record?_ofMembers (by simp) 2 depth
  have hvalues := inverts_entries Value.inverts m.values.entries depth
  have hproperties : Properties.ofEntries m.values.entries = m.values :=
    Properties.ofEntries_of_perm (.refl _)
  rw [toJson] at hrecord
  rw [ofJson?, hrecord]
  simp [string?_ofString, hvalues, hproperties, bind_fits, depth_ofString]

/-! ## Declarations -/

theorem Field.inverts : Inverts Field.ofJson? Field.toJson := by
  refine fun f => spells_record rfl fun depth => ?_
  have hrecord : record? ["name", "ty", "access", "constant_value"] 4 (depth + 1) f.toJson
      = some (depth, _) :=
    record?_ofMembers (by simp) 4 depth
  have htype := ValueType.inverts f.type depth
  have hconstant := optionalField?_ofOption Constant.inverts
    (fun c => by cases c <;> exact nofun) depth f.constantValue
  rw [toJson] at hrecord
  rw [ofJson?, hrecord]
  simp [string?_ofString, word16?_toNat, htype, hconstant, bind_fits, depth_ofString, depth_int,
    ← ite_and]

theorem Method.inverts : Inverts Method.ofJson? Method.toJson := by
  refine fun m => spells_record rfl fun depth => ?_
  have hrecord : record? ["name", "signature", "access", "body", "marker_default"] 5 (depth + 1)
      m.toJson = some (depth, _) :=
    record?_ofMembers (by simp) 5 depth
  have hsignature := Signature.inverts m.signature depth
  have hbody := optionalField?_ofOption Body.inverts (fun b => nofun) depth m.body
  have hdefault := optionalField?_ofOption Marker.Value.inverts
    (fun v => by cases v <;> exact nofun) depth m.markerDefault
  rw [toJson] at hrecord
  rw [ofJson?, hrecord]
  simp [string?_ofString, word16?_toNat, hsignature, hbody, hdefault, bind_fits, depth_ofString,
    depth_int, ← ite_and]

theorem Constructor.inverts : Inverts Constructor.ofJson? Constructor.toJson := by
  refine fun c => spells_record rfl fun depth => ?_
  have hrecord : record? ["signature", "access", "body"] 3 (depth + 1) c.toJson
      = some (depth, _) :=
    record?_ofMembers (by simp) 3 depth
  have hsignature := Signature.inverts c.signature depth
  have hbody := optionalField?_ofOption Body.inverts (fun b => nofun) depth c.body
  rw [toJson] at hrecord
  rw [ofJson?, hrecord]
  simp [word16?_toNat, hsignature, hbody, bind_fits, depth_int, ← ite_and]

theorem Kind.inverts : Inverts Kind.ofJson? fun k => ofString k.word := by
  rintro (_ | _ | _ | _ | _ | _) (_ | depth) <;> rfl

theorem Declaration.ofFields?_members (depth : Nat) (d : Declaration) (nested : List Json) :
    ofFields? depth ((d.members ++ [("nested", Json.arr nested)]).map fun m => some m.2)
      = if ∀ m ∈ d.members, m.2.depth ≤ depth then some (d, nested) else none := by
  have hkind := Kind.inverts d.kind depth
  have hsuper := optionalField?_ofOption inverts_string (fun _ => nofun) depth d.superType
  have hinterfaces := inverts_list inverts_string d.interfaces depth
  have hmarkers := inverts_list Marker.inverts d.markers depth
  have hfields := inverts_list Field.inverts d.fields depth
  have hmethods := inverts_list Method.inverts d.methods depth
  have hconstructors := inverts_list Constructor.inverts d.constructors depth
  simp [ofFields?, members, ofStrings, string?_ofString, word16?_toNat, hkind, hsuper, hinterfaces,
    hmarkers, hfields, hmethods, hconstructors, bind_fits, depth_ofString, depth_int, ← ite_and]

/-! ## Types -/

theorem TypeDef.toJsonAll_eq_map (ts : List TypeDef) : toJsonAll ts = ts.map toJson := by
  induction ts with
  | nil => rfl
  | cons t ts ih => rw [toJsonAll, ih, List.map_cons]

/-- **The form of a type spells the type**, at every depth that it fits. -/
theorem TypeDef.inverts : Inverts TypeDef.ofJson? TypeDef.toJson := by
  intro t depth
  -- A type is two levels in one step of the reader.
  induction depth using Nat.strongRecOn generalizing t with
  | ind depth ih =>
    obtain ⟨d, nested⟩ := t
    rw [toJson, toJsonAll_eq_map]
    match depth with
    | 0 => exact (if_neg (not_depth_ofMembers_le_zero _)).symm
    | 1 =>
      have hdeep : ¬ (ofMembers (d.members ++ [("nested", Json.arr (nested.map toJson))])).depth
          ≤ 0 + 1 := fun h => not_depth_arr_le_zero _
        (depth_ofMembers_le.1 h _ (List.mem_append_right _ List.mem_cons_self))
      exact (if_neg hdeep).symm
    | depth + 2 =>
      have hrecord : record? fieldNames 10 (depth + 2)
          (ofMembers (d.members ++ [("nested", Json.arr (nested.map toJson))]))
            = some (depth + 1, _) :=
        record?_ofMembers (by simp [Declaration.members]) 10 (depth + 1)
      have hfields := d.ofFields?_members (depth + 1) (nested.map toJson)
      have hnested := mapM_fits (g := id) fun n (_ : n ∈ nested) => ih depth (by omega) n
      have hdepth : (ofMembers (d.members ++ [("nested", Json.arr (nested.map toJson))])).depth
          ≤ depth + 2 ↔ (∀ m ∈ d.members, m.2.depth ≤ depth + 1) ∧
            ∀ n ∈ nested, n.toJson.depth ≤ depth := by
        rw [depth_ofMembers_le, List.forall_mem_append, List.forall_mem_singleton, depth_arr_le,
          List.forall_mem_map]
      rw [ofJson?, hrecord]
      simp only [Option.bind_eq_bind, Option.bind_some, hfields, hnested, bind_fits, List.map_id,
        Option.pure_def, ← ite_and, hdepth]

/-- **A type is read back from its text** just if the text nests no deeper than a reader goes. -/
theorem TypeDef.parse?_pretty_eq_ite (t : TypeDef) :
    Json.parse? t.pretty = some t.toJson ∧
      TypeDef.parse? t.pretty = if t.toJson.depth ≤ Json.maxDepth then some t else none := by
  have hdocument : Json.parse? t.pretty = some t.toJson := Json.parse?_pretty t.toJson
  refine ⟨hdocument, ?_⟩
  rw [parse?, hdocument]
  exact TypeDef.inverts t Json.maxDepth

/-- Bare types, each nested in the one before: `n` of them in the first. -/
def TypeDef.tower : Nat → TypeDef
  | 0 => bare "p.A" .classType
  | n + 1 => { bare "p.A" .classType with nested := [tower n] }

theorem TypeDef.depth_toJson_tower (n : Nat) : (tower n).toJson.depth = 2 * (n + 1) := by
  induction n with
  | zero => rfl
  | succ n ih =>
    have hstep : (tower (n + 1)).toJson.depth = 1 + max 1 (1 + (tower n).toJson.depth) := by
      simp [tower, bare, toJson, toJsonAll, Declaration.members, ofMembers, ofOption, ofStrings,
        ofString, Json.depth, depthMembers, depthItems]
    omega

/-- Towers are read back up to sixty-three levels of types. -/
theorem TypeDef.parse?_pretty_tower (n : Nat) :
    TypeDef.parse? (tower n).pretty = if n < 63 then some (tower n) else none := by
  have hdepth : (tower n).toJson.depth ≤ Json.maxDepth ↔ n < 63 := by
    rw [depth_toJson_tower, Json.maxDepth]
    omega
  rw [parse?, pretty, Json.parse?_pretty, Option.bind_some, inverts]
  simp only [hdepth]

end Mixins
