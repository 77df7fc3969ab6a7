import Mixins.Proofs.Wire.RoundTrip
import Mixins.Wire.TypeFile

/-!
# Type files are read back

* `Properties.ofEntries_of_perm` — properties do not depend on the order of their entries.
* `TypeDef.reads` — each part of a type definition is read back, down to the same depth.
* `ofBytes_of_toBytes` — what is written to a type file is read back from it.
-/

namespace Mixins

open Wire
open Utf8 (Bytes)

/-! ## Properties -/

namespace Properties

theorem insertEntry_perm {name : String} {value : Marker.Value}
    {entries : List (String × Marker.Value)} (h : name ∉ entries.map (·.1)) :
    (insertEntry name value entries).Perm ((name, value) :: entries) := by
  induction entries with
  | nil => exact .refl _
  | cons first rest ih =>
    obtain ⟨key, old⟩ := first
    rw [List.map_cons, List.mem_cons, not_or] at h
    unfold insertEntry
    split
    · exact .refl _
    · rw [if_neg h.1]
      exact ((ih h.2).cons _).trans (.swap _ _ _)

theorem foldl_insert_perm {entries : List (String × Marker.Value)} {p : Properties}
    (h : ((p.entries ++ entries).map (·.1)).Nodup) :
    (entries.foldl (fun p (name, value) => p.insert name value) p).entries.Perm
      (p.entries ++ entries) := by
  induction entries generalizing p with
  | nil => simp
  | cons first rest ih =>
    obtain ⟨name, value⟩ := first
    have hmiddle : (p.entries ++ (name, value) :: rest).Perm
        ((name, value) :: p.entries ++ rest) := List.perm_middle
    have hnodup := (hmiddle.map (·.1)).nodup_iff.1 h
    have hnew : name ∉ p.entries.map (·.1) := by
      intro hmem
      rw [List.cons_append, List.map_cons, List.nodup_cons, List.map_append] at hnodup
      exact hnodup.1 (List.mem_append_left _ hmem)
    have hinsert : (p.insert name value).entries.Perm ((name, value) :: p.entries) :=
      insertEntry_perm hnew
    have hrest := ih (p := p.insert name value)
      (((hinsert.append_right rest).map (·.1)).nodup_iff.2 hnodup)
    exact hrest.trans ((hinsert.append_right rest).trans hmiddle.symm)

theorem keys_nodup (p : Properties) : (p.entries.map (·.1)).Nodup := by
  rw [List.nodup_iff_pairwise_ne, List.pairwise_map]
  refine p.sorted.imp fun {a b} hlt heq => ?_
  rw [heq] at hlt
  exact String.lt_irrefl _ hlt

/-- Properties are their entries in whatever order. -/
theorem ofEntries_of_perm {p : Properties} {entries : List (String × Marker.Value)}
    (h : entries.Perm p.entries) : ofEntries entries = p := by
  have hnodup : ((empty.entries ++ entries).map (·.1)).Nodup :=
    (h.map (·.1)).nodup_iff.2 p.keys_nodup
  have hperm : (ofEntries entries).entries.Perm p.entries := (foldl_insert_perm hnodup).trans h
  have heq : (ofEntries entries).entries = p.entries := by
    refine hperm.eq_of_pairwise (fun a b _ _ hab hba => ?_) (ofEntries entries).sorted p.sorted
    exact absurd (String.lt_trans hab hba) (String.lt_irrefl _)
  cases p
  cases hof : ofEntries entries
  simp_all

end Properties

/-! ## Members -/

theorem ValueType.reads (depth : Nat) :
    Reads (ValueType.encode depth) (ValueType.decode depth) := by
  have hvariant : ∀ n < 8, ∀ rest, decodeVariant 8 (index n ++ rest) = .ok (n, rest) :=
    fun n hn => decodeVariant_index hn (by decide)
  induction depth with
  | zero => exact fun _ _ h => nomatch h
  | succ depth ih =>
    intro v bytes h rest
    cases v with
    | object name =>
      simp only [encode, bind_eq_ok, pure_eq_ok] at h
      obtain ⟨text, htext, rfl⟩ := h
      simp only [decode, List.append_assoc, hvariant, Nat.reduceLT, ok_bind, reads_text _ _ htext]
    | array element =>
      simp only [encode, bind_eq_ok, pure_eq_ok] at h
      obtain ⟨inner, hinner, rfl⟩ := h
      simp only [decode, List.append_assoc, hvariant, Nat.reduceLT, ok_bind, ih _ _ hinner]
    | void | bool | int | long | double | str =>
      cases h
      simp only [decode, hvariant, Nat.reduceLT, ok_bind]

theorem Signature.reads (depth : Nat) :
    Reads (Signature.encode depth) (Signature.decode depth) := by
  cases depth with
  | zero => exact fun _ _ h => nomatch h
  | succ depth =>
    intro s bytes h rest
    simp only [encode, bind_eq_ok, pure_eq_ok] at h
    obtain ⟨params, hparams, ret, hret, rfl⟩ := h
    simp only [decode, List.append_assoc, ok_bind,
      reads_sequence (ValueType.reads depth) _ _ hparams, ValueType.reads depth _ _ hret]

theorem Constant.reads (depth : Nat) : Reads (Constant.encode depth) (Constant.decode depth) := by
  have hvariant : ∀ n < 5, ∀ rest, decodeVariant 5 (index n ++ rest) = .ok (n, rest) :=
    fun n hn => decodeVariant_index hn (by decide)
  cases depth with
  | zero => exact fun _ _ h => nomatch h
  | succ depth =>
    intro c bytes h rest
    cases c with
    | int n =>
      cases h
      simp only [decode, List.append_assoc, hvariant, Nat.reduceLT, ok_bind, decodeInt64_int64]
    | str s =>
      simp only [encode, bind_eq_ok, pure_eq_ok] at h
      obtain ⟨text, htext, rfl⟩ := h
      simp only [decode, List.append_assoc, hvariant, Nat.reduceLT, ok_bind, reads_text _ _ htext]
    | typeRef name =>
      simp only [encode, bind_eq_ok, pure_eq_ok] at h
      obtain ⟨text, htext, rfl⟩ := h
      simp only [decode, List.append_assoc, hvariant, Nat.reduceLT, ok_bind, reads_text _ _ htext]
    | fieldRef owner name type =>
      simp only [encode, bind_eq_ok, pure_eq_ok] at h
      obtain ⟨ownerText, howner, nameText, hname, typeBytes, htype, rfl⟩ := h
      simp only [decode, List.append_assoc, hvariant, Nat.reduceLT, ok_bind, reads_text _ _ howner,
        reads_text _ _ hname, ValueType.reads depth _ _ htype]
    | methodRef owner name signature =>
      simp only [encode, bind_eq_ok, pure_eq_ok] at h
      obtain ⟨ownerText, howner, nameText, hname, signatureBytes, hsignature, rfl⟩ := h
      simp only [decode, List.append_assoc, hvariant, Nat.reduceLT, ok_bind, reads_text _ _ howner,
        reads_text _ _ hname, Signature.reads depth _ _ hsignature]

theorem Body.reads (depth : Nat) : Reads (Body.encode depth) (Body.decode depth) := by
  cases depth with
  | zero => exact fun _ _ h => nomatch h
  | succ depth =>
    intro b bytes h rest
    simp only [encode, bind_eq_ok, pure_eq_ok] at h
    obtain ⟨code, hcode, constants, hconstants, rfl⟩ := h
    simp only [decode, List.append_assoc, ok_bind, decodeWord16_word16, reads_bytes _ _ hcode,
      reads_sequence (Constant.reads depth) _ _ hconstants]

theorem Marker.Value.reads (depth : Nat) :
    Reads (Marker.Value.encode depth) (Marker.Value.decode depth) := by
  have hvariant : ∀ n < 5, ∀ rest, decodeVariant 5 (index n ++ rest) = .ok (n, rest) :=
    fun n hn => decodeVariant_index hn (by decide)
  induction depth with
  | zero => exact fun _ _ h => nomatch h
  | succ depth ih =>
    intro v bytes h rest
    cases v with
    | bool b =>
      cases h
      simp only [decode, List.append_assoc, hvariant, Nat.reduceLT, ok_bind, decodeBool_bool]
    | int n =>
      cases h
      simp only [decode, List.append_assoc, hvariant, Nat.reduceLT, ok_bind, decodeInt64_int64]
    | str s =>
      simp only [encode, bind_eq_ok, pure_eq_ok] at h
      obtain ⟨text, htext, rfl⟩ := h
      simp only [decode, List.append_assoc, hvariant, Nat.reduceLT, ok_bind, reads_text _ _ htext]
    | typeRef name =>
      simp only [encode, bind_eq_ok, pure_eq_ok] at h
      obtain ⟨text, htext, rfl⟩ := h
      simp only [decode, List.append_assoc, hvariant, Nat.reduceLT, ok_bind, reads_text _ _ htext]
    | array items =>
      simp only [encode, bind_eq_ok, pure_eq_ok] at h
      obtain ⟨content, hcontent, rfl⟩ := h
      simp only [decode, List.append_assoc, hvariant, Nat.reduceLT, ok_bind,
        reads_sequence ih _ _ hcontent]

/-- The properties are read back whatever the order in which they were written. -/
theorem Marker.reads (depth : Nat) : Reads (Marker.encode depth) (Marker.decode depth) := by
  cases depth with
  | zero => exact fun _ _ h => nomatch h
  | succ depth =>
    intro m bytes h rest
    simp only [encode, bind_eq_ok, pure_eq_ok] at h
    obtain ⟨typeName, htypeName, entries, hentries, rfl⟩ := h
    obtain ⟨read, hread, hentries⟩ :=
      decodeMap_map (Marker.Value.reads depth) hentries m.values.keys_nodup
    simp only [decode, List.append_assoc, ok_bind, reads_text _ _ htypeName, hentries,
      Properties.ofEntries_of_perm hread]

theorem Field.reads (depth : Nat) : Reads (Field.encode depth) (Field.decode depth) := by
  cases depth with
  | zero => exact fun _ _ h => nomatch h
  | succ depth =>
    intro f bytes h rest
    simp only [encode, bind_eq_ok, pure_eq_ok] at h
    obtain ⟨name, hname, type, htype, value, hvalue, rfl⟩ := h
    simp only [decode, List.append_assoc, ok_bind, reads_text _ _ hname,
      ValueType.reads depth _ _ htype, decodeWord16_word16,
      reads_option (Constant.reads depth) _ _ hvalue]

theorem Method.reads (depth : Nat) : Reads (Method.encode depth) (Method.decode depth) := by
  cases depth with
  | zero => exact fun _ _ h => nomatch h
  | succ depth =>
    intro m bytes h rest
    simp only [encode, bind_eq_ok, pure_eq_ok] at h
    obtain ⟨name, hname, signature, hsignature, body, hbody, default, hdefault, rfl⟩ := h
    simp only [decode, List.append_assoc, ok_bind, reads_text _ _ hname,
      Signature.reads depth _ _ hsignature, decodeWord16_word16,
      reads_option (Body.reads depth) _ _ hbody,
      reads_option (Marker.Value.reads depth) _ _ hdefault]

theorem Constructor.reads (depth : Nat) :
    Reads (Constructor.encode depth) (Constructor.decode depth) := by
  cases depth with
  | zero => exact fun _ _ h => nomatch h
  | succ depth =>
    intro c bytes h rest
    simp only [encode, bind_eq_ok, pure_eq_ok] at h
    obtain ⟨signature, hsignature, body, hbody, rfl⟩ := h
    simp only [decode, List.append_assoc, ok_bind, Signature.reads depth _ _ hsignature,
      decodeWord16_word16, reads_option (Body.reads depth) _ _ hbody]

/-! ## Types -/

theorem Kind.reads (depth : Nat) : Reads (Kind.encode depth) (Kind.decode depth) := by
  cases depth with
  | zero => exact fun _ _ h => nomatch h
  | succ depth =>
    intro k bytes h rest
    cases h
    have hvariant : decodeVariant 6 (index k.variant ++ rest) = .ok (k.variant, rest) :=
      decodeVariant_index (by cases k <;> decide) (by decide) rest
    simp only [decode, hvariant, ok_bind]
    cases k <;> rfl

theorem Declaration.reads (depth : Nat) :
    Reads (Declaration.encode depth) (Declaration.decode depth) := by
  intro d bytes h rest
  simp only [encode, bind_eq_ok, pure_eq_ok] at h
  obtain ⟨name, hname, kind, hkind, superType, hsuperType, interfaces, hinterfaces, markers,
    hmarkers, fields, hfields, methods, hmethods, constructors, hconstructors, rfl⟩ := h
  simp only [decode, List.append_assoc, ok_bind, reads_text _ _ hname, Kind.reads depth _ _ hkind,
    decodeWord16_word16, reads_option reads_text _ _ hsuperType,
    reads_sequence reads_text _ _ hinterfaces, reads_sequence (Marker.reads depth) _ _ hmarkers,
    reads_sequence (Field.reads depth) _ _ hfields,
    reads_sequence (Method.reads depth) _ _ hmethods,
    reads_sequence (Constructor.reads depth) _ _ hconstructors]

theorem TypeDef.reads (depth : Nat) : Reads (TypeDef.encode depth) (TypeDef.decode depth) := by
  induction depth with
  | zero => exact fun _ _ h => nomatch h
  | succ depth ih =>
    intro t bytes h rest
    simp only [encode, bind_eq_ok, pure_eq_ok] at h
    obtain ⟨declaration, hdeclaration, nested, hnested, rfl⟩ := h
    simp only [decode, List.append_assoc, ok_bind, Declaration.reads depth _ _ hdeclaration,
      reads_sequence ih _ _ hnested]
    cases t
    rfl

namespace TypeDef

/-- **What is written to a type file is read back from it.** -/
theorem ofBytes_of_toBytes {t : TypeDef} {content : Bytes} (h : t.toBytes = .ok content)
    (context : String) : ofBytes content context = .ok t := by
  have hread := TypeDef.reads maxDepth t content (mapError_eq_ok.1 h) []
  rw [List.append_nil] at hread
  refine mapError_eq_ok.2 ?_
  simp [complete, hread, ok_bind]

/-- The context only names the file in an error. -/
theorem ofBytes_congr {t : TypeDef} {content : Bytes} {context : String}
    (h : ofBytes content context = .ok t) (context' : String) :
    ofBytes content context' = .ok t :=
  mapError_eq_ok.2 (mapError_eq_ok.1 h)

end TypeDef

end Mixins
