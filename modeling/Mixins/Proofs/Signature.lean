import Mathlib.Data.List.Basic
import Mathlib.Data.List.Nodup
import Mixins.Proofs.Path.LastPiece
import Mixins.Proofs.Reference
import Mixins.TypeDef.Edit

/-!
# Descriptors identify signatures

A descriptor joins the texts of value types by punctuation. Where no name of an object type holds
any of that punctuation, or is the text of a primitive type, a descriptor can be taken apart again:
at the parenthesis that closes the parameters, at the commas between them, and at the brackets at
the end of each.

* `ValueType.text_inj` — the texts of different types differ.
* `Signature.descriptor_inj` — the descriptors of different signatures differ.
* `TypeDef.addConstructor_distinct` — so a constructor counts as declared just if its signature is
  that of one which is.
-/

namespace Mixins

namespace ValueType

/-- The types with a text of their own. -/
def primitives : List ValueType := [.void, .bool, .int, .long, .double, .str]

/-- What a descriptor puts between the texts of types and after them. -/
def punctuation : List Char := [',', '(', ')', '[', ']']

/-- Whether a name can be told from all else that a descriptor shows. -/
structure IsObjectName (name : String) : Prop where
  nonempty : name ≠ ""
  word : ∀ c ∈ name.toList, c ∉ punctuation
  object : ∀ type ∈ primitives, type.text ≠ name

instance (name : String) : Decidable (IsObjectName name) :=
  decidable_of_iff (name ≠ "" ∧ name.toList.all (· ∉ punctuation) = true ∧
    ∀ type ∈ primitives, type.text ≠ name)
    ⟨fun ⟨hne, hword, hobject⟩ => ⟨hne, by simpa using hword, hobject⟩,
      fun ⟨hne, hword, hobject⟩ => ⟨hne, by simpa using hword, hobject⟩⟩

/-- Whether the names in a type are such names. -/
def Readable (a : ValueType) : Prop := ∀ name ∈ a.references, IsObjectName name

instance (a : ValueType) : Decidable a.Readable :=
  inferInstanceAs (Decidable (∀ name ∈ a.references, IsObjectName name))

variable {a b : ValueType} {c : Char}

theorem cases_primitive (a : ValueType) :
    a ∈ primitives ∨ (∃ name, a = .object name) ∨ ∃ element, a = .array element := by
  cases a <;> simp [primitives]

theorem text_array_toList (element : ValueType) :
    (array element).text.toList = element.text.toList ++ ['[', ']'] := by
  rw [text, String.toList_append]
  rfl

theorem not_mem_text_primitive (ha : a ∈ primitives) (hc : c ∈ punctuation) :
    c ∉ a.text.toList := by
  have hall : ∀ type ∈ primitives, punctuation.all (· ∉ type.text.toList) = true := by decide
  exact of_decide_eq_true (List.all_eq_true.1 (hall a ha) c hc)

/-- The only punctuation in the text of a type is the brackets of an array. -/
theorem not_mem_text (ha : a.Readable) (hc : c ∈ punctuation) (hopen : c ≠ '[')
    (hclose : c ≠ ']') : c ∉ a.text.toList := by
  induction a with
  | object name => exact fun hmem => (ha name (List.mem_singleton_self name)).word c hmem hc
  | array element ih =>
    rw [text_array_toList, List.mem_append, not_or]
    exact ⟨ih ha, by simp [hopen, hclose]⟩
  | void | bool | int | long | double | str => exact not_mem_text_primitive (by decide) hc

/-- A bracket closes the text of an array, and of nothing else. -/
theorem isArray_of_mem_text (ha : a.Readable) (h : ']' ∈ a.text.toList) :
    ∃ element, a = .array element := by
  have hbracket : ']' ∈ punctuation := by decide
  rcases cases_primitive a with hprimitive | ⟨name, rfl⟩ | harray
  · exact absurd h (not_mem_text_primitive hprimitive hbracket)
  · exact absurd hbracket ((ha name (List.mem_singleton_self name)).word _ h)
  · exact harray

theorem text_ne_nil (ha : a.Readable) : a.text.toList ≠ [] := by
  have hall : ∀ type ∈ primitives, type.text.toList ≠ [] := by decide
  rcases cases_primitive a with hprimitive | ⟨name, rfl⟩ | ⟨element, rfl⟩
  · exact hall a hprimitive
  · exact fun hnil => (ha name (List.mem_singleton_self name)).nonempty (String.toList_inj.1 hnil)
  · simp [text_array_toList]

/-- Two types that are no arrays. -/
theorem text_inj_of_not_array (ha : a.Readable) (hb : b.Readable)
    (hanot : ∀ element, a ≠ .array element) (hbnot : ∀ element, b ≠ .array element)
    (h : a.text = b.text) : a = b := by
  have hnodup : (primitives.map text).Nodup := by decide
  rcases cases_primitive a with haprimitive | ⟨name, rfl⟩ | ⟨element, rfl⟩
  · rcases cases_primitive b with hbprimitive | ⟨name, rfl⟩ | ⟨element, rfl⟩
    · exact List.inj_on_of_nodup_map hnodup haprimitive hbprimitive h
    · exact absurd h ((hb name (List.mem_singleton_self name)).object a haprimitive)
    · exact absurd rfl (hbnot element)
  · rcases cases_primitive b with hbprimitive | ⟨other, rfl⟩ | ⟨element, rfl⟩
    · exact absurd h.symm ((ha name (List.mem_singleton_self name)).object b hbprimitive)
    · exact congrArg object h
    · exact absurd rfl (hbnot element)
  · exact absurd rfl (hanot element)

/-- **The text of a type** tells it from all others. -/
theorem text_inj (ha : a.Readable) (hb : b.Readable) (h : a.text = b.text) : a = b := by
  induction a generalizing b with
  | array element ih =>
    have hmem : ']' ∈ b.text.toList := by simp [← h, text_array_toList]
    obtain ⟨element', rfl⟩ := isArray_of_mem_text hb hmem
    have htext := congrArg String.toList h
    rw [text_array_toList, text_array_toList, List.append_left_inj, String.toList_inj] at htext
    exact congrArg array (ih ha hb htext)
  | object | void | bool | int | long | double | str =>
    refine text_inj_of_not_array ha hb nofun ?_ h
    rintro element rfl
    have hmem : ']' ∈ (array element).text.toList := by simp [text_array_toList]
    rw [← h] at hmem
    obtain ⟨_, hnot⟩ := isArray_of_mem_text ha hmem
    cases hnot

end ValueType

namespace Signature

/-- Whether the names in a signature can be told from all else that its descriptor shows. -/
def Readable (s : Signature) : Prop := ∀ name ∈ s.references, ValueType.IsObjectName name

instance (s : Signature) : Decidable s.Readable :=
  inferInstanceAs (Decidable (∀ name ∈ s.references, ValueType.IsObjectName name))

variable {s s' : Signature}

theorem Readable.types (hs : s.Readable) :
    (∀ param ∈ s.params, param.Readable) ∧ s.ret.Readable := by
  refine ⟨fun param hparam name hname => hs name ?_, fun name hname => hs name ?_⟩
  · exact List.mem_append_left _ (List.mem_flatMap.2 ⟨param, hparam, hname⟩)
  · exact List.mem_append_right _ hname

/-- The parameters as a descriptor shows them. -/
def paramsText (params : List ValueType) : List Char :=
  [','].intercalate (params.map (·.text.toList))

theorem descriptor_toList (s : Signature) :
    s.descriptor.toList = '(' :: (paramsText s.params ++ ')' :: s.ret.text.toList) := by
  have hopen : "(".toList = ['('] := rfl
  have hclose : ")".toList = [')'] := rfl
  have hcomma : ",".toList = [','] := rfl
  rw [descriptor, String.toList_append, String.toList_append, String.toList_append,
    String.toList_intercalate, List.map_map, hopen, hclose, hcomma, List.append_assoc,
    List.append_assoc, List.singleton_append, List.singleton_append]
  rfl

theorem not_mem_paramsText {params : List ValueType} (h : ∀ param ∈ params, param.Readable) :
    ')' ∉ paramsText params := by
  intro hmem
  rw [paramsText, Path.mem_intercalate_iff (by decide)] at hmem
  obtain ⟨piece, hpiece, hmem⟩ := hmem
  obtain ⟨param, hparam, rfl⟩ := List.mem_map.1 hpiece
  exact ValueType.not_mem_text (h param hparam) (by decide) (by decide) (by decide) hmem

/-- The parameters are split at the commas. Where there are none, a single empty text is left. -/
theorem splitOn_paramsText {params : List ValueType} (h : ∀ param ∈ params, param.Readable) :
    (paramsText params).splitOn ',' =
      if params = [] then [[]] else params.map (·.text.toList) := by
  by_cases hnil : params = []
  · rw [if_pos hnil, hnil]
    rfl
  · rw [if_neg hnil, paramsText, List.splitOn_intercalate ',' _ (by simpa using hnil)]
    intro piece hpiece
    obtain ⟨param, hparam, rfl⟩ := List.mem_map.1 hpiece
    exact ValueType.not_mem_text (h param hparam) (by decide) (by decide) (by decide)

theorem map_text_inj {params params' : List ValueType}
    (h : ∀ param ∈ params, param.Readable) (h' : ∀ param ∈ params', param.Readable)
    (htext : params.map (·.text.toList) = params'.map (·.text.toList)) : params = params' := by
  induction params generalizing params' with
  | nil => exact (List.map_eq_nil_iff.1 htext.symm).symm
  | cons param params ih =>
    cases params' with
    | nil => cases htext
    | cons param' params' =>
      rw [List.map_cons, List.map_cons, List.cons.injEq, String.toList_inj] at htext
      rw [List.forall_mem_cons] at h h'
      rw [ValueType.text_inj h.1 h'.1 htext.1, ih h.2 h'.2 htext.2]

/-- No text of a type is empty, so no parameters are told from one. -/
theorem paramsText_inj {params params' : List ValueType}
    (h : ∀ param ∈ params, param.Readable) (h' : ∀ param ∈ params', param.Readable)
    (htext : paramsText params = paramsText params') : params = params' := by
  have hne : ∀ {types : List ValueType}, (∀ type ∈ types, type.Readable) →
      types.map (·.text.toList) ≠ [[]] := by
    intro types htypes hempty
    obtain ⟨type, rest, rfl, htype, -⟩ := List.map_eq_cons_iff.1 hempty
    exact ValueType.text_ne_nil (htypes type List.mem_cons_self) htype
  have hsplit := congrArg (List.splitOn ',') htext
  rw [splitOn_paramsText h, splitOn_paramsText h'] at hsplit
  split at hsplit
  · split at hsplit
    · simp [*]
    · exact absurd hsplit.symm (hne h')
  · split at hsplit
    · exact absurd hsplit (hne h)
    · exact map_text_inj h h' hsplit

/-- **The descriptor of a signature** tells it from all others. -/
theorem descriptor_inj (hs : s.Readable) (hs' : s'.Readable)
    (h : s.descriptor = s'.descriptor) : s = s' := by
  obtain ⟨hparams, hret⟩ := hs.types
  obtain ⟨hparams', hret'⟩ := hs'.types
  have htext := congrArg String.toList h
  rw [descriptor_toList, descriptor_toList, List.cons.injEq,
    List.append_cons_inj_of_notMem (not_mem_paramsText hparams)
      (ValueType.not_mem_text hret (by decide) (by decide) (by decide)), String.toList_inj] at htext
  obtain ⟨params, ret⟩ := s
  obtain ⟨params', ret'⟩ := s'
  rw [mk.injEq]
  exact ⟨paramsText_inj hparams hparams' htext.2.1, ValueType.text_inj hret hret' htext.2.2.2⟩

end Signature

namespace TypeDef

open Signature (descriptor_inj)

theorem identity_beq {c d : Constructor} (hc : c.signature.Readable) (hd : d.signature.Readable) :
    (d.identity == c.identity) = decide (d.signature = c.signature) := by
  rw [Bool.eq_iff_iff, beq_iff_eq, decide_eq_true_eq, Constructor.identity, Constructor.identity,
    String.append_right_inj]
  exact ⟨descriptor_inj hd hc, congrArg Signature.descriptor⟩

/-- **Constructors are told apart by their signatures.** Signatures have the same descriptor only if
they are the same. So a constructor is refused as a duplicate just if one with its signature is
declared, and otherwise it is added. -/
theorem addConstructor_distinct :
    (∀ s s' : Signature, s.Readable → s'.Readable → (s.descriptor = s'.descriptor ↔ s = s')) ∧
      ∀ (t : TypeDef) (c : Constructor), (∀ d ∈ t.constructors, d.signature.Readable) →
        c.signature.Readable → t.addConstructor c =
          if ∃ d ∈ t.constructors, d.signature = c.signature then
            (t, .error (.duplicateMember t.name c.identity))
          else ({ t with constructors := t.constructors ++ [c] }, .ok ()) := by
  refine ⟨fun s s' hs hs' => ⟨descriptor_inj hs hs', congrArg _⟩, fun t c ht hc => ?_⟩
  have hany : (t.constructors.any (·.identity == c.identity) = true) =
      ∃ d ∈ t.constructors, d.signature = c.signature := by
    rw [List.any_eq_true, eq_iff_iff]
    refine exists_congr fun d => and_congr_right fun hd => ?_
    rw [identity_beq hc (ht d hd), decide_eq_true_eq]
  simp only [addConstructor, hany]

/-- A type that has a constructor with an array as its second parameter, and one without any. -/
def twiceBuilt : TypeDef :=
  { bare "a.T" .classType with
    constructors := [⟨⟨[.int, .array (.object "a.B")], .void⟩, publicAccess, none⟩,
      ⟨⟨[], .void⟩, publicAccess, none⟩] }

/-- The first of them is refused; with the brackets on the other parameter it is another one. -/
theorem addConstructor_distinct_brackets :
    Signature.descriptor ⟨[.int, .array (.object "a.B")], .void⟩ ≠
        Signature.descriptor ⟨[.array .int, .object "a.B"], .void⟩ ∧
      twiceBuilt.addConstructor ⟨⟨[.int, .array (.object "a.B")], .void⟩, 0, none⟩ =
        (twiceBuilt, .error (.duplicateMember "a.T" "<init>(int,a.B[])void")) ∧
      twiceBuilt.addConstructor ⟨⟨[.array .int, .object "a.B"], .void⟩, 0, none⟩ =
        ({ twiceBuilt with constructors := twiceBuilt.constructors ++
          [⟨⟨[.array .int, .object "a.B"], .void⟩, 0, none⟩] }, .ok ()) := by
  have hbuilt : ∀ d ∈ twiceBuilt.constructors, d.signature.Readable := by decide
  have hagain : Signature.Readable ⟨[.int, .array (.object "a.B")], .void⟩ := by decide
  have hother : Signature.Readable ⟨[.array .int, .object "a.B"], .void⟩ := by decide
  refine ⟨fun h => ?_, ?_, ?_⟩
  · exact absurd ((addConstructor_distinct.1 _ _ hagain hother).1 h) (by decide)
  · rw [addConstructor_distinct.2 twiceBuilt _ hbuilt hagain, if_pos (by decide)]
    rfl
  · rw [addConstructor_distinct.2 twiceBuilt _ hbuilt hother, if_neg (by decide)]

/-- A name with a comma in it is read as two parameters. -/
example : Signature.descriptor ⟨[.object "a,b"], .void⟩ =
    Signature.descriptor ⟨[.object "a", .object "b"], .void⟩ := by decide

end TypeDef

end Mixins
