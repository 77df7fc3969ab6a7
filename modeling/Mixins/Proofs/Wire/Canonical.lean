import Mixins.Proofs.OutputRoot
import Mixins.Proofs.Wire.Exact

/-!
# A type has one file

What a type is written as and what it is read from are the same bytes: the number of nested parts
that the writer counts against the greatest depth is the one that the reader counts.

* `TypeDef.exact` — each part of a type definition is read from its own bytes only, down to the same
  depth.
* `ofBytes_toBytes_prefixFree` — a type is read back from what was written, and from no beginning or
  continuation of it.
* `ofBytes_canonical` — a file that is read is the only one of its type, and the one that is written
  for it.
-/

namespace Mixins

open Wire
open Utf8 (Bytes)

/-! ## Members -/

theorem ValueType.exact (depth : Nat) :
    Exact (ValueType.encode depth) (ValueType.decode depth) := by
  induction depth with
  | zero => exact fun _ _ _ h => nomatch h
  | succ depth ih =>
    intro bytes v rest h
    obtain ⟨⟨variant, rest₁⟩, hvariant, hread⟩ := bind_eq_ok.1 h
    obtain ⟨rfl, hcount⟩ := index_of_decodeVariant hvariant
    match variant, hcount with
    | 0, _ | 1, _ | 2, _ | 3, _ | 4, _ | 5, _ =>
      cases hread
      exact ⟨_, rfl, rfl⟩
    | 6, _ =>
      obtain ⟨name, text, rfl, htext, rfl⟩ := exact_text.content hread
      refine ⟨index 6 ++ text, ?_, (List.append_assoc _ _ _).symm⟩
      simp only [encode, htext, ok_bind, pure_eq_ok]
    | 7, _ =>
      obtain ⟨element, inner, rfl, hinner, rfl⟩ := ih.content hread
      refine ⟨index 7 ++ inner, ?_, (List.append_assoc _ _ _).symm⟩
      simp only [encode, hinner, ok_bind, pure_eq_ok]

theorem Signature.exact (depth : Nat) :
    Exact (Signature.encode depth) (Signature.decode depth) := by
  cases depth with
  | zero => exact fun _ _ _ h => nomatch h
  | succ depth =>
    intro bytes s rest h
    simp only [decode, bind_eq_ok] at h
    obtain ⟨⟨params, rest₁⟩, hparams, ⟨ret, rest₂⟩, hret, heq⟩ := h
    cases heq
    obtain ⟨paramBytes, hparamBytes, rfl⟩ := exact_sequence (ValueType.exact depth) _ _ _ hparams
    obtain ⟨retBytes, hretBytes, rfl⟩ := ValueType.exact depth _ _ _ hret
    refine ⟨paramBytes ++ retBytes, ?_, (List.append_assoc _ _ _).symm⟩
    simp only [encode, hparamBytes, hretBytes, ok_bind, pure_eq_ok]

theorem Constant.exact (depth : Nat) : Exact (Constant.encode depth) (Constant.decode depth) := by
  cases depth with
  | zero => exact fun _ _ _ h => nomatch h
  | succ depth =>
    intro bytes c rest h
    obtain ⟨⟨variant, rest₁⟩, hvariant, hread⟩ := bind_eq_ok.1 h
    obtain ⟨rfl, hcount⟩ := index_of_decodeVariant hvariant
    match variant, hcount with
    | 0, _ =>
      simp only [bind_eq_ok] at hread
      obtain ⟨⟨n, rest₂⟩, hn, heq⟩ := hread
      cases heq
      obtain rfl := int64_of_decodeInt64 hn
      exact ⟨index 0 ++ int64 n, rfl, (List.append_assoc _ _ _).symm⟩
    | 1, _ =>
      obtain ⟨s, text, rfl, htext, rfl⟩ := exact_text.content hread
      refine ⟨index 1 ++ text, ?_, (List.append_assoc _ _ _).symm⟩
      simp only [encode, htext, ok_bind, pure_eq_ok]
    | 2, _ =>
      obtain ⟨name, text, rfl, htext, rfl⟩ := exact_text.content hread
      refine ⟨index 2 ++ text, ?_, (List.append_assoc _ _ _).symm⟩
      simp only [encode, htext, ok_bind, pure_eq_ok]
    | 3, _ =>
      simp only [bind_eq_ok] at hread
      obtain ⟨⟨owner, rest₂⟩, howner, ⟨name, rest₃⟩, hname, ⟨type, rest₄⟩, htype, heq⟩ := hread
      cases heq
      obtain ⟨ownerText, hownerText, rfl⟩ := exact_text _ _ _ howner
      obtain ⟨nameText, hnameText, rfl⟩ := exact_text _ _ _ hname
      obtain ⟨typeBytes, htypeBytes, rfl⟩ := ValueType.exact depth _ _ _ htype
      refine ⟨index 3 ++ ownerText ++ nameText ++ typeBytes, ?_, by simp only [List.append_assoc]⟩
      simp only [encode, hownerText, hnameText, htypeBytes, ok_bind, pure_eq_ok]
    | 4, _ =>
      simp only [bind_eq_ok] at hread
      obtain ⟨⟨owner, rest₂⟩, howner, ⟨name, rest₃⟩, hname, ⟨signature, rest₄⟩, hsignature, heq⟩ :=
        hread
      cases heq
      obtain ⟨ownerText, hownerText, rfl⟩ := exact_text _ _ _ howner
      obtain ⟨nameText, hnameText, rfl⟩ := exact_text _ _ _ hname
      obtain ⟨signatureBytes, hsignatureBytes, rfl⟩ := Signature.exact depth _ _ _ hsignature
      refine ⟨index 4 ++ ownerText ++ nameText ++ signatureBytes, ?_,
        by simp only [List.append_assoc]⟩
      simp only [encode, hownerText, hnameText, hsignatureBytes, ok_bind, pure_eq_ok]

theorem Body.exact (depth : Nat) : Exact (Body.encode depth) (Body.decode depth) := by
  cases depth with
  | zero => exact fun _ _ _ h => nomatch h
  | succ depth =>
    intro bytes b rest h
    simp only [decode, bind_eq_ok] at h
    obtain ⟨⟨maxStack, rest₁⟩, hmaxStack, ⟨maxLocals, rest₂⟩, hmaxLocals, ⟨code, rest₃⟩, hcode,
      ⟨constants, rest₄⟩, hconstants, heq⟩ := h
    cases heq
    obtain rfl := word16_of_decodeWord16 hmaxStack
    obtain rfl := word16_of_decodeWord16 hmaxLocals
    obtain ⟨codeBytes, hcodeBytes, rfl⟩ := exact_bytes _ _ _ hcode
    obtain ⟨constantBytes, hconstantBytes, rfl⟩ :=
      exact_sequence (Constant.exact depth) _ _ _ hconstants
    refine ⟨word16 maxStack ++ word16 maxLocals ++ codeBytes ++ constantBytes, ?_,
      by simp only [List.append_assoc]⟩
    simp only [encode, hcodeBytes, hconstantBytes, ok_bind, pure_eq_ok]

theorem Marker.Value.exact (depth : Nat) :
    Exact (Marker.Value.encode depth) (Marker.Value.decode depth) := by
  induction depth with
  | zero => exact fun _ _ _ h => nomatch h
  | succ depth ih =>
    intro bytes v rest h
    obtain ⟨⟨variant, rest₁⟩, hvariant, hread⟩ := bind_eq_ok.1 h
    obtain ⟨rfl, hcount⟩ := index_of_decodeVariant hvariant
    match variant, hcount with
    | 0, _ =>
      simp only [bind_eq_ok] at hread
      obtain ⟨⟨b, rest₂⟩, hb, heq⟩ := hread
      cases heq
      obtain rfl := bool_of_decodeBool hb
      exact ⟨index 0 ++ Wire.bool b, rfl, (List.append_assoc _ _ _).symm⟩
    | 1, _ =>
      simp only [bind_eq_ok] at hread
      obtain ⟨⟨n, rest₂⟩, hn, heq⟩ := hread
      cases heq
      obtain rfl := int64_of_decodeInt64 hn
      exact ⟨index 1 ++ int64 n, rfl, (List.append_assoc _ _ _).symm⟩
    | 2, _ =>
      obtain ⟨s, text, rfl, htext, rfl⟩ := exact_text.content hread
      refine ⟨index 2 ++ text, ?_, (List.append_assoc _ _ _).symm⟩
      simp only [encode, htext, ok_bind, pure_eq_ok]
    | 3, _ =>
      obtain ⟨name, text, rfl, htext, rfl⟩ := exact_text.content hread
      refine ⟨index 3 ++ text, ?_, (List.append_assoc _ _ _).symm⟩
      simp only [encode, htext, ok_bind, pure_eq_ok]
    | 4, _ =>
      obtain ⟨items, content, rfl, hcontent, rfl⟩ := (exact_sequence ih).content hread
      refine ⟨index 4 ++ content, ?_, (List.append_assoc _ _ _).symm⟩
      simp only [encode, hcontent, ok_bind, pure_eq_ok]

/-- The properties keep the entries in the order of their names. They are written in the order in
which they were read, that of the names' bytes. -/
theorem Marker.exact (depth : Nat) : Exact (Marker.encode depth) (Marker.decode depth) := by
  cases depth with
  | zero => exact fun _ _ _ h => nomatch h
  | succ depth =>
    intro bytes m rest h
    simp only [decode, bind_eq_ok] at h
    obtain ⟨⟨typeName, rest₁⟩, htypeName, ⟨entries, rest₂⟩, hentries, heq⟩ := h
    cases heq
    obtain ⟨nameText, hnameText, rfl⟩ := exact_text _ _ _ htypeName
    obtain ⟨hnodup, hwritten⟩ := map_of_decodeMap (Marker.Value.exact depth) hentries
    have hperm : (Properties.ofEntries entries).entries.Perm entries :=
      Properties.foldl_insert_perm (p := .empty) hnodup
    obtain ⟨content, hcontent, rfl⟩ := hwritten _ hperm
    refine ⟨nameText ++ content, ?_, (List.append_assoc _ _ _).symm⟩
    simp only [encode, hnameText, hcontent, ok_bind, pure_eq_ok]

theorem Field.exact (depth : Nat) : Exact (Field.encode depth) (Field.decode depth) := by
  cases depth with
  | zero => exact fun _ _ _ h => nomatch h
  | succ depth =>
    intro bytes f rest h
    simp only [decode, bind_eq_ok] at h
    obtain ⟨⟨name, rest₁⟩, hname, ⟨type, rest₂⟩, htype, ⟨access, rest₃⟩, haccess,
      ⟨value, rest₄⟩, hvalue, heq⟩ := h
    cases heq
    obtain ⟨nameText, hnameText, rfl⟩ := exact_text _ _ _ hname
    obtain ⟨typeBytes, htypeBytes, rfl⟩ := ValueType.exact depth _ _ _ htype
    obtain rfl := word16_of_decodeWord16 haccess
    obtain ⟨valueBytes, hvalueBytes, rfl⟩ := exact_option (Constant.exact depth) _ _ _ hvalue
    refine ⟨nameText ++ typeBytes ++ word16 access ++ valueBytes, ?_,
      by simp only [List.append_assoc]⟩
    simp only [encode, hnameText, htypeBytes, hvalueBytes, ok_bind, pure_eq_ok]

theorem Method.exact (depth : Nat) : Exact (Method.encode depth) (Method.decode depth) := by
  cases depth with
  | zero => exact fun _ _ _ h => nomatch h
  | succ depth =>
    intro bytes m rest h
    simp only [decode, bind_eq_ok] at h
    obtain ⟨⟨name, rest₁⟩, hname, ⟨signature, rest₂⟩, hsignature, ⟨access, rest₃⟩, haccess,
      ⟨body, rest₄⟩, hbody, ⟨default, rest₅⟩, hdefault, heq⟩ := h
    cases heq
    obtain ⟨nameText, hnameText, rfl⟩ := exact_text _ _ _ hname
    obtain ⟨signatureBytes, hsignatureBytes, rfl⟩ := Signature.exact depth _ _ _ hsignature
    obtain rfl := word16_of_decodeWord16 haccess
    obtain ⟨bodyBytes, hbodyBytes, rfl⟩ := exact_option (Body.exact depth) _ _ _ hbody
    obtain ⟨defaultBytes, hdefaultBytes, rfl⟩ :=
      exact_option (Marker.Value.exact depth) _ _ _ hdefault
    refine ⟨nameText ++ signatureBytes ++ word16 access ++ bodyBytes ++ defaultBytes, ?_,
      by simp only [List.append_assoc]⟩
    simp only [encode, hnameText, hsignatureBytes, hbodyBytes, hdefaultBytes, ok_bind, pure_eq_ok]

theorem Constructor.exact (depth : Nat) :
    Exact (Constructor.encode depth) (Constructor.decode depth) := by
  cases depth with
  | zero => exact fun _ _ _ h => nomatch h
  | succ depth =>
    intro bytes c rest h
    simp only [decode, bind_eq_ok] at h
    obtain ⟨⟨signature, rest₁⟩, hsignature, ⟨access, rest₂⟩, haccess, ⟨body, rest₃⟩, hbody, heq⟩ :=
      h
    cases heq
    obtain ⟨signatureBytes, hsignatureBytes, rfl⟩ := Signature.exact depth _ _ _ hsignature
    obtain rfl := word16_of_decodeWord16 haccess
    obtain ⟨bodyBytes, hbodyBytes, rfl⟩ := exact_option (Body.exact depth) _ _ _ hbody
    refine ⟨signatureBytes ++ word16 access ++ bodyBytes, ?_, by simp only [List.append_assoc]⟩
    simp only [encode, hsignatureBytes, hbodyBytes, ok_bind, pure_eq_ok]

/-! ## Types -/

theorem Kind.exact (depth : Nat) : Exact (Kind.encode depth) (Kind.decode depth) := by
  cases depth with
  | zero => exact fun _ _ _ h => nomatch h
  | succ depth =>
    intro bytes k rest h
    obtain ⟨⟨variant, rest₁⟩, hvariant, heq⟩ := bind_eq_ok.1 h
    cases heq
    obtain ⟨rfl, hcount⟩ := index_of_decodeVariant hvariant
    refine ⟨index variant, ?_, rfl⟩
    match variant, hcount with
    | 0, _ | 1, _ | 2, _ | 3, _ | 4, _ | 5, _ => rfl

theorem Declaration.exact (depth : Nat) :
    Exact (Declaration.encode depth) (Declaration.decode depth) := by
  intro bytes d rest h
  simp only [decode, bind_eq_ok] at h
  obtain ⟨⟨name, rest₁⟩, hname, ⟨kind, rest₂⟩, hkind, ⟨access, rest₃⟩, haccess,
    ⟨superType, rest₄⟩, hsuperType, ⟨interfaces, rest₅⟩, hinterfaces, ⟨markers, rest₆⟩, hmarkers,
    ⟨fields, rest₇⟩, hfields, ⟨methods, rest₈⟩, hmethods, ⟨constructors, rest₉⟩, hconstructors,
    heq⟩ := h
  cases heq
  obtain ⟨nameText, hnameText, rfl⟩ := exact_text _ _ _ hname
  obtain ⟨kindBytes, hkindBytes, rfl⟩ := Kind.exact depth _ _ _ hkind
  obtain rfl := word16_of_decodeWord16 haccess
  obtain ⟨superText, hsuperText, rfl⟩ := exact_option exact_text _ _ _ hsuperType
  obtain ⟨interfaceTexts, hinterfaceTexts, rfl⟩ := exact_sequence exact_text _ _ _ hinterfaces
  obtain ⟨markerBytes, hmarkerBytes, rfl⟩ := exact_sequence (Marker.exact depth) _ _ _ hmarkers
  obtain ⟨fieldBytes, hfieldBytes, rfl⟩ := exact_sequence (Field.exact depth) _ _ _ hfields
  obtain ⟨methodBytes, hmethodBytes, rfl⟩ := exact_sequence (Method.exact depth) _ _ _ hmethods
  obtain ⟨constructorBytes, hconstructorBytes, rfl⟩ :=
    exact_sequence (Constructor.exact depth) _ _ _ hconstructors
  refine ⟨nameText ++ kindBytes ++ word16 access ++ superText ++ interfaceTexts ++ markerBytes
    ++ fieldBytes ++ methodBytes ++ constructorBytes, ?_, by simp only [List.append_assoc]⟩
  simp only [encode, hnameText, hkindBytes, hsuperText, hinterfaceTexts, hmarkerBytes,
    hfieldBytes, hmethodBytes, hconstructorBytes, ok_bind, pure_eq_ok]

theorem TypeDef.exact (depth : Nat) : Exact (TypeDef.encode depth) (TypeDef.decode depth) := by
  induction depth with
  | zero => exact fun _ _ _ h => nomatch h
  | succ depth ih =>
    intro bytes t rest h
    simp only [decode, bind_eq_ok] at h
    obtain ⟨⟨declaration, rest₁⟩, hdeclaration, ⟨nested, rest₂⟩, hnested, heq⟩ := h
    cases heq
    obtain ⟨front, hfront, rfl⟩ := Declaration.exact depth _ _ _ hdeclaration
    obtain ⟨nestedBytes, hnestedBytes, rfl⟩ := exact_sequence ih _ _ _ hnested
    refine ⟨front ++ nestedBytes, ?_, (List.append_assoc _ _ _).symm⟩
    simp only [encode, hfront, hnestedBytes, ok_bind, pure_eq_ok]

namespace TypeDef

/-- What is read from a type file is written back byte for byte. -/
theorem toBytes_of_ofBytes {t : TypeDef} {content : Bytes} {context : String}
    (h : ofBytes content context = .ok t) : t.toBytes = .ok content := by
  obtain ⟨⟨t', rest⟩, hdecode, heq⟩ := bind_eq_ok.1 (mapError_eq_ok.1 h)
  simp only at heq
  split at heq
  · rename_i hrest
    cases heq
    obtain ⟨front, hfront, rfl⟩ := TypeDef.exact maxDepth _ _ _ hdecode
    rw [hrest, List.append_nil]
    exact mapError_eq_ok.2 hfront
  · cases heq

/-- A file does not go on after its type. -/
theorem append_eq_nil_of_ofBytes {t t' : TypeDef} {content more : Bytes} {context context' : String}
    (h : ofBytes content context = .ok t) (h' : ofBytes (content ++ more) context' = .ok t') :
    more = [] := by
  have hread := TypeDef.reads maxDepth _ _ (mapError_eq_ok.1 (toBytes_of_ofBytes h)) more
  have hcomplete := mapError_eq_ok.1 h'
  simp only [complete, hread, ok_bind] at hcomplete
  split at hcomplete
  · assumption
  · cases hcomplete

/-- **What is written is read back**, whatever the context. No file is the beginning of another one,
so a file that was cut off or goes on is not read at all. -/
theorem ofBytes_toBytes_prefixFree {t : TypeDef} {content : Bytes}
    (h : t.toBytes = .ok content) :
    (∀ context, ofBytes content context = .ok t) ∧
      ∀ content' context t', ofBytes content' context = .ok t' →
        content' <+: content ∨ content <+: content' → content' = content := by
  have hread : ∀ context, ofBytes content context = .ok t := ofBytes_of_toBytes h
  refine ⟨hread, fun content' context t' h' hprefix => ?_⟩
  rcases hprefix with ⟨more, rfl⟩ | ⟨more, rfl⟩
  · rw [append_eq_nil_of_ofBytes h' (hread context), List.append_nil]
  · rw [append_eq_nil_of_ofBytes (hread context) h', List.append_nil]

/-- A type with a marker: `aa` stands before `b`, but the bytes of `b`, with their length in front,
stand before those of `aa`. -/
def annotated : TypeDef :=
  { bare "p.A" .classType with
    markers := [⟨"p.M", .ofEntries [("aa", .int (-1)), ("b", .bool true)]⟩] }

def annotatedFile : Bytes :=
  [3, 112, 46, 65, 0, 1, 0, 0, 0,
    1, 3, 112, 46, 77, 2, 1, 98, 0, 1, 2, 97, 97, 1, 255, 255, 255, 255, 255, 255, 255, 255,
    0, 0, 0, 0]

theorem annotated_read : annotated.toBytes = .ok annotatedFile ∧
    (∀ context, ofBytes annotatedFile context = .ok annotated) ∧
    ∀ context t', ofBytes (annotatedFile ++ [0]) context ≠ .ok t' := by
  have hread : ofBytes annotatedFile "p/A.ctype" = .ok annotated := by decide +kernel
  have hwritten : annotated.toBytes = .ok annotatedFile := toBytes_of_ofBytes hread
  obtain ⟨hback, honly⟩ := ofBytes_toBytes_prefixFree hwritten
  refine ⟨hwritten, hback, fun context t' h' => ?_⟩
  exact absurd (honly _ context t' h' (.inr (List.prefix_append _ _))) (by decide)

/-- **A type has one file**: the bytes that it is read from are those that it is written as, no
other file is read as the same type, and a type that is written unchanged leaves its file as it
was. -/
theorem ofBytes_canonical {t : TypeDef} {content : Bytes} {context : String}
    (h : ofBytes content context = .ok t) :
    t.toBytes = .ok content ∧ t.digest = .ok (Sha256.hex content) ∧
      (∀ content' context', ofBytes content' context' = .ok t → content' = content) ∧
      ∀ (root : OutputRoot) files files' path, root.write files t = (files', .ok path) →
        files'.read path = .ok content := by
  have hwritten := toBytes_of_ofBytes h
  have honly : ∀ content' context', ofBytes content' context' = .ok t → content' = content := by
    intro content' context' h'
    simpa using (toBytes_of_ofBytes h').symm.trans hwritten
  have hdigest : t.digest = .ok (Sha256.hex content) := by
    simp only [digest, hwritten, Except.map]
  refine ⟨hwritten, hdigest, honly, fun root files files' path hwrite => ?_⟩
  obtain ⟨houtermost, hpath, hread, -⟩ := OutputRoot.write_eq_ok hwrite
  have hback := hread t.name (Name.isOutermost_iff.1 houtermost)
  obtain ⟨content', hcontent', hof⟩ := OutputRoot.read_eq_ok_iff.1 hback
  rw [hpath, hcontent', honly content' _ hof]

theorem annotated_canonical : ofBytes annotatedFile "p/A.ctype" = .ok annotated ∧
    annotated.toBytes = .ok annotatedFile ∧
    ∀ content context, ofBytes content context = .ok annotated → content = annotatedFile := by
  have hread : ofBytes annotatedFile "p/A.ctype" = .ok annotated := by decide +kernel
  obtain ⟨hwritten, -, honly, -⟩ := ofBytes_canonical hread
  exact ⟨hread, hwritten, honly⟩

end TypeDef

end Mixins
