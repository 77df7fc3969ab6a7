import Mixins.Proofs.Attempt
import Mixins.Proofs.Wire.Extent
import Mixins.Proofs.Wire.RoundTrip
import Mixins.Wire.TypeFile

/-!
# What can be written

A value can be written if its containers are not nested too deep and its texts, lists and maps are
not too long. Nothing else stands in the way.

* `Bounded` — an encoder that fails for these two reasons only.
* `bounded_text`, `Bounded.option`, `Bounded.sequence` — the encoders of the format.
* `TypeDef.bounded` — the encoder of type definitions, from those of their parts.
* `toBytes_succeeds_iff` — which types have a type file.
-/

namespace Mixins

namespace Wire

/-- Whether the encoder succeeds just if the value is at most `left` deep and no length in it is
too great. -/
def Bounded {α : Type} (encode : α → Encoded) (left : Nat) (depth : α → Nat)
    (lengths : α → List Nat) : Prop :=
  ∀ a, Succeeds (encode a) ↔ depth a ≤ left ∧ ∀ n ∈ lengths a, n ≤ maxLength

theorem succeeds_length (n : Nat) : Succeeds (length n) ↔ n ≤ maxLength := by
  unfold length
  split
  · exact iff_of_true (succeeds_ok _) ‹_›
  · exact iff_of_false (not_succeeds_error _) ‹_›

theorem succeeds_bytes (content : Utf8.Bytes) :
    Succeeds (bytes content) ↔ content.length ≤ maxLength := by
  simp only [bytes, succeeds_bind, succeeds_pure, and_true, exists_eq_ok, succeeds_length]

theorem succeeds_text (s : String) :
    Succeeds (text s) ↔ ∀ n ∈ textLengths s, n ≤ maxLength := by
  have hlength : (Utf8.encode s).length = s.utf8ByteSize := by simp [Utf8.encode]
  rw [text, succeeds_bytes, hlength, textLengths, List.forall_mem_singleton]

theorem bounded_text (left : Nat) : Bounded text left (fun _ => 0) textLengths := by
  intro s
  rw [succeeds_text, and_iff_right (Nat.zero_le left)]

variable {α : Type} {encode : α → Encoded} {left : Nat} {depth : α → Nat} {lengths : α → List Nat}

theorem Bounded.option (h : Bounded encode left depth lengths) :
    Bounded (option encode) left (fun a => deepest depth a.toList)
      fun a => a.toList.flatMap lengths := by
  intro a
  cases a with
  | none => simp [Wire.option, succeeds_ok, deepest]
  | some a =>
    simp only [Wire.option, succeeds_bind, succeeds_pure, and_true, exists_eq_ok, h a,
      deepest_le_iff, Option.toList_some, List.forall_mem_singleton, List.flatMap_singleton]

theorem succeeds_items (items : List α) :
    Succeeds (Wire.items encode items) ↔ ∀ a ∈ items, Succeeds (encode a) := by
  induction items with
  | nil => simp [Wire.items, succeeds_ok]
  | cons a items ih =>
    simp only [Wire.items, succeeds_bind, succeeds_pure, and_true, exists_and_right, exists_eq_ok,
      ih, List.forall_mem_cons]

theorem Bounded.sequence (h : Bounded encode left depth lengths) :
    Bounded (sequence encode) left (deepest depth) (listLengths lengths) := by
  intro items
  have hitems : (∀ a ∈ items, Succeeds (encode a)) ↔
      deepest depth items ≤ left ∧ ∀ n ∈ items.flatMap lengths, n ≤ maxLength := by
    simp only [h _, deepest_le_iff, List.forall_mem_flatMap, imp_and, forall_and]
  simp only [Wire.sequence, succeeds_bind, succeeds_pure, and_true, exists_and_right, exists_eq_ok,
    succeeds_length, succeeds_items, hitems, listLengths, List.forall_mem_cons]
  exact and_left_comm

theorem succeeds_entries (as : List (String × α)) :
    Succeeds (entries encode as) ↔ ∀ e ∈ as, Succeeds (text e.1) ∧ Succeeds (encode e.2) := by
  induction as with
  | nil => simp [entries, succeeds_ok]
  | cons e as ih =>
    obtain ⟨key, a⟩ := e
    simp only [entries, succeeds_bind, succeeds_pure, and_true, exists_and_right, exists_eq_ok, ih,
      List.forall_mem_cons, and_assoc]

/-- The order of the entries makes no difference to their number. -/
theorem succeeds_map (as : List (String × α)) :
    Succeeds (map encode as) ↔
      (∀ e ∈ as, Succeeds (text e.1) ∧ Succeeds (encode e.2)) ∧ as.length ≤ maxLength := by
  have hlength : ∀ pairs, entries encode as = .ok pairs →
      (Succeeds (length (pairs.mergeSort fun a b => decide (a.1 ≤ b.1)).length) ↔
        as.length ≤ maxLength) := by
    intro pairs hpairs
    rw [succeeds_length, List.length_mergeSort, (entries_eq_ok.1 hpairs).length_eq]
  simp only [map, succeeds_bind, succeeds_pure, and_true, exists_eq_ok]
  rw [← succeeds_entries]
  constructor
  · rintro ⟨pairs, hpairs, h⟩
    exact ⟨⟨pairs, hpairs⟩, (hlength pairs hpairs).1 h⟩
  · rintro ⟨⟨pairs, hpairs⟩, h⟩
    exact ⟨pairs, hpairs, (hlength pairs hpairs).2 h⟩

end Wire

open Wire

/-! ## Members -/

theorem ValueType.bounded (left : Nat) :
    Bounded (ValueType.encode left) left ValueType.depth ValueType.lengths := by
  induction left with
  | zero => exact fun v => iff_of_false (not_succeeds_error _) (by cases v <;> simp [depth])
  | succ left ih =>
    intro v
    cases v with
    | object name =>
      simp only [encode, succeeds_bind, succeeds_pure, and_true, exists_eq_ok, succeeds_text, depth,
        lengths, Nat.le_add_left, true_and]
    | array element =>
      simp only [encode, succeeds_bind, succeeds_pure, and_true, exists_eq_ok, ih element, depth,
        lengths, Nat.add_le_add_iff_right]
    | void | bool | int | long | double | str => simp [encode, succeeds_ok, depth, lengths]

theorem Signature.bounded (left : Nat) :
    Bounded (Signature.encode left) left Signature.depth Signature.lengths := by
  cases left with
  | zero => exact fun s => iff_of_false (not_succeeds_error _) (by simp [depth])
  | succ left =>
    intro s
    have hparams := (ValueType.bounded left).sequence s.params
    have hret := ValueType.bounded left s.ret
    simp only [encode, succeeds_bind, succeeds_pure, and_true, exists_and_right, exists_eq_ok,
      hparams, hret, depth, lengths, Nat.add_le_add_iff_right, Nat.max_le, List.forall_mem_append]
    exact and_and_and_comm

theorem Constant.bounded (left : Nat) :
    Bounded (Constant.encode left) left Constant.depth Constant.lengths := by
  cases left with
  | zero => exact fun c => iff_of_false (not_succeeds_error _) (by cases c <;> simp [depth])
  | succ left =>
    intro c
    cases c with
    | int n => simp [encode, succeeds_ok, depth, lengths]
    | str s | typeRef s =>
      simp only [encode, succeeds_bind, succeeds_pure, and_true, exists_eq_ok, succeeds_text, depth,
        lengths, Nat.le_add_left, true_and]
    | fieldRef owner name type =>
      simp only [encode, succeeds_bind, succeeds_pure, and_true, exists_and_right, exists_eq_ok,
        succeeds_text, ValueType.bounded left type, depth, lengths, Nat.add_le_add_iff_right,
        List.forall_mem_append]
      tauto
    | methodRef owner name signature =>
      simp only [encode, succeeds_bind, succeeds_pure, and_true, exists_and_right, exists_eq_ok,
        succeeds_text, Signature.bounded left signature, depth, lengths, Nat.add_le_add_iff_right,
        List.forall_mem_append]
      tauto

theorem Body.bounded (left : Nat) :
    Bounded (Body.encode left) left Body.depth Body.lengths := by
  cases left with
  | zero => exact fun b => iff_of_false (not_succeeds_error _) (by simp [depth])
  | succ left =>
    intro b
    have hconstants := (Constant.bounded left).sequence b.constants
    simp only [encode, succeeds_bind, succeeds_pure, and_true, exists_and_right, exists_eq_ok,
      succeeds_bytes, hconstants, depth, lengths, Nat.add_le_add_iff_right, List.forall_mem_cons]
    exact and_left_comm

theorem Marker.Value.bounded (left : Nat) :
    Bounded (Marker.Value.encode left) left Marker.Value.depth Marker.Value.lengths := by
  induction left with
  | zero => exact fun v => iff_of_false (not_succeeds_error _) (by cases v <;> simp [depth])
  | succ left ih =>
    intro v
    cases v with
    | array items =>
      have hitems := Bounded.sequence ih items
      simp only [encode, succeeds_bind, succeeds_pure, and_true, exists_eq_ok, hitems, depth,
        lengths, Nat.add_le_add_iff_right, depthOfAll_eq_deepest, lengthsOfAll_eq_flatMap,
        listLengths]
    | str s | typeRef s =>
      simp only [encode, succeeds_bind, succeeds_pure, and_true, exists_eq_ok, succeeds_text, depth,
        lengths, Nat.le_add_left, true_and]
    | bool | int => simp [encode, succeeds_ok, depth, lengths]

theorem Marker.bounded (left : Nat) :
    Bounded (Marker.encode left) left Marker.depth fun m => m.lengths ++ m.mapLengths := by
  cases left with
  | zero => exact fun m => iff_of_false (not_succeeds_error _) (by simp [depth])
  | succ left =>
    intro m
    simp only [encode, succeeds_bind, succeeds_pure, and_true, exists_and_right, exists_eq_ok,
      succeeds_text, succeeds_map, Marker.Value.bounded left _, depth, lengths, mapLengths,
      Nat.add_le_add_iff_right, deepest_le_iff, List.forall_mem_append, List.forall_mem_flatMap,
      List.forall_mem_singleton, imp_and, forall_and]
    tauto

theorem Field.bounded (left : Nat) :
    Bounded (Field.encode left) left Field.depth Field.lengths := by
  cases left with
  | zero => exact fun f => iff_of_false (not_succeeds_error _) (by simp [depth])
  | succ left =>
    intro f
    have hvalue := (Constant.bounded left).option f.constantValue
    simp only [encode, succeeds_bind, succeeds_pure, and_true, exists_and_right, exists_eq_ok,
      succeeds_text, ValueType.bounded left f.type, hvalue, depth, lengths,
      Nat.add_le_add_iff_right, Nat.max_le, List.forall_mem_append]
    tauto

theorem Method.bounded (left : Nat) :
    Bounded (Method.encode left) left Method.depth Method.lengths := by
  cases left with
  | zero => exact fun m => iff_of_false (not_succeeds_error _) (by simp [depth])
  | succ left =>
    intro m
    have hbody := (Body.bounded left).option m.body
    have hdefault := (Marker.Value.bounded left).option m.markerDefault
    simp only [encode, succeeds_bind, succeeds_pure, and_true, exists_and_right, exists_eq_ok,
      succeeds_text, Signature.bounded left m.signature, hbody, hdefault, depth, lengths,
      Nat.add_le_add_iff_right, Nat.max_le, List.forall_mem_append]
    tauto

theorem Constructor.bounded (left : Nat) :
    Bounded (Constructor.encode left) left Constructor.depth Constructor.lengths := by
  cases left with
  | zero => exact fun c => iff_of_false (not_succeeds_error _) (by simp [depth])
  | succ left =>
    intro c
    have hbody := (Body.bounded left).option c.body
    simp only [encode, succeeds_bind, succeeds_pure, and_true, exists_and_right, exists_eq_ok,
      Signature.bounded left c.signature, hbody, depth, lengths, Nat.add_le_add_iff_right,
      Nat.max_le, List.forall_mem_append]
    tauto

/-! ## Types -/

theorem Kind.succeeds_encode (left : Nat) (k : Kind) : Succeeds (k.encode left) ↔ 1 ≤ left := by
  cases left with
  | zero => exact iff_of_false (not_succeeds_error _) (by simp)
  | succ left => exact iff_of_true (succeeds_ok _) (by simp)

theorem Declaration.bounded (left : Nat) :
    Bounded (Declaration.encode left) left Declaration.depth
      fun d => d.lengths ++ d.mapLengths := by
  intro d
  have hsuper := (bounded_text left).option d.superType
  have hinterfaces := (bounded_text left).sequence d.interfaces
  have hmarkers := (Marker.bounded left).sequence d.markers
  have hfields := (Field.bounded left).sequence d.fields
  have hmethods := (Method.bounded left).sequence d.methods
  have hconstructors := (Constructor.bounded left).sequence d.constructors
  simp only [encode, succeeds_bind, succeeds_pure, and_true, exists_and_right, exists_eq_ok,
    succeeds_text, Kind.succeeds_encode, hsuper, hinterfaces, hmarkers, hfields, hmethods,
    hconstructors, deepest_le_iff, depth, lengths, mapLengths, listLengths, Nat.max_le,
    List.forall_mem_append, List.forall_mem_cons, List.forall_mem_flatMap, imp_and, forall_and,
    Nat.zero_le, implies_true, true_and]
  exact iff_of_eq (by ac_rfl)

theorem TypeDef.bounded (left : Nat) :
    Bounded (TypeDef.encode left) left TypeDef.depth fun t => t.lengths ++ t.mapLengths := by
  induction left with
  | zero => exact fun t => iff_of_false (not_succeeds_error _) (by rw [depth_eq]; omega)
  | succ left ih =>
    intro t
    have hdeclaration := Declaration.bounded left t.toDeclaration
    have hnested := ih.sequence t.nested
    simp only [encode, succeeds_bind, succeeds_pure, and_true, exists_and_right, exists_eq_ok,
      hdeclaration, hnested, depth_eq t, lengths_eq t, mapLengths_eq t, listLengths,
      Nat.add_le_add_iff_right, Nat.max_le, List.forall_mem_append, List.forall_mem_cons,
      List.forall_mem_flatMap, imp_and, forall_and]
    exact iff_of_eq (by ac_rfl)

namespace TypeDef

theorem toBytes_succeeds_iff (t : TypeDef) :
    Succeeds t.toBytes ↔
      t.depth ≤ maxDepth ∧ (∀ n ∈ t.lengths, n ≤ maxLength) ∧
        ∀ n ∈ t.mapLengths, n ≤ maxLength := by
  have hencode := bounded maxDepth t
  rw [List.forall_mem_append] at hencode
  rw [← hencode]
  exact exists_congr fun content => mapError_eq_ok

end TypeDef

end Mixins
