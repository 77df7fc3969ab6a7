import Mixins.Archive
import Mixins.Proofs.Wire.Canonical
import Mixins.Proofs.Wire.Incremental

/-!
# Where a file ends

A type file and an archive file end where their content does. One that was cut off, wherever that
was, is refused because it ends too early and for no other reason; one that goes on is refused
because something is left.

* `TypeDef.incremental`, `Archive.incremental` — the parts of both are read one after the other.
* `ofBytes_selfDelimiting` — what is said of a file that was cut off or goes on.
-/

namespace Mixins

open Wire
open Utf8 (Bytes)

/-! ## Members -/

theorem ValueType.incremental (depth : Nat) : Incremental (ValueType.decode depth) := by
  induction depth with
  | zero => exact incremental_error _
  | succ depth ih =>
    refine (incremental_variant 8).bind fun variant => ?_
    match variant with
    | 0 | 1 | 2 | 3 | 4 | 5 => exact incremental_ok _
    | 6 => exact incremental_text.bind fun name => incremental_ok _
    | _ + 7 => exact ih.bind fun element => incremental_ok _

theorem Signature.incremental (depth : Nat) : Incremental (Signature.decode depth) := by
  cases depth with
  | zero => exact incremental_error _
  | succ depth =>
    refine (incremental_sequence (ValueType.incremental depth)).bind fun params => ?_
    exact (ValueType.incremental depth).bind fun ret => incremental_ok _

theorem Constant.incremental (depth : Nat) : Incremental (Constant.decode depth) := by
  cases depth with
  | zero => exact incremental_error _
  | succ depth =>
    refine (incremental_variant 5).bind fun variant => ?_
    match variant with
    | 0 => exact incremental_int64.bind fun n => incremental_ok _
    | 1 => exact incremental_text.bind fun s => incremental_ok _
    | 2 => exact incremental_text.bind fun name => incremental_ok _
    | 3 =>
      refine incremental_text.bind fun owner => incremental_text.bind fun name => ?_
      exact (ValueType.incremental depth).bind fun type => incremental_ok _
    | _ + 4 =>
      refine incremental_text.bind fun owner => incremental_text.bind fun name => ?_
      exact (Signature.incremental depth).bind fun signature => incremental_ok _

theorem Body.incremental (depth : Nat) : Incremental (Body.decode depth) := by
  cases depth with
  | zero => exact incremental_error _
  | succ depth =>
    refine incremental_word16.bind fun maxStack => incremental_word16.bind fun maxLocals => ?_
    refine incremental_bytes.bind fun code => ?_
    exact (incremental_sequence (Constant.incremental depth)).bind fun constants => incremental_ok _

theorem Marker.Value.incremental (depth : Nat) : Incremental (Marker.Value.decode depth) := by
  induction depth with
  | zero => exact incremental_error _
  | succ depth ih =>
    refine (incremental_variant 5).bind fun variant => ?_
    match variant with
    | 0 => exact incremental_bool.bind fun b => incremental_ok _
    | 1 => exact incremental_int64.bind fun n => incremental_ok _
    | 2 => exact incremental_text.bind fun s => incremental_ok _
    | 3 => exact incremental_text.bind fun name => incremental_ok _
    | _ + 4 => exact (incremental_sequence ih).bind fun items => incremental_ok _

theorem Marker.incremental (depth : Nat) : Incremental (Marker.decode depth) := by
  cases depth with
  | zero => exact incremental_error _
  | succ depth =>
    refine incremental_text.bind fun typeName => ?_
    exact (incremental_map (Marker.Value.incremental depth)).bind fun entries => incremental_ok _

theorem Field.incremental (depth : Nat) : Incremental (Field.decode depth) := by
  cases depth with
  | zero => exact incremental_error _
  | succ depth =>
    refine incremental_text.bind fun name => (ValueType.incremental depth).bind fun type => ?_
    refine incremental_word16.bind fun access => ?_
    exact (incremental_option (Constant.incremental depth)).bind fun value => incremental_ok _

theorem Method.incremental (depth : Nat) : Incremental (Method.decode depth) := by
  cases depth with
  | zero => exact incremental_error _
  | succ depth =>
    refine incremental_text.bind fun name => (Signature.incremental depth).bind fun signature => ?_
    refine incremental_word16.bind fun access => ?_
    refine (incremental_option (Body.incremental depth)).bind fun body => ?_
    exact (incremental_option (Marker.Value.incremental depth)).bind fun default => incremental_ok _

theorem Constructor.incremental (depth : Nat) : Incremental (Constructor.decode depth) := by
  cases depth with
  | zero => exact incremental_error _
  | succ depth =>
    refine (Signature.incremental depth).bind fun signature => ?_
    refine incremental_word16.bind fun access => ?_
    exact (incremental_option (Body.incremental depth)).bind fun body => incremental_ok _

/-! ## Types and archives -/

theorem Kind.incremental (depth : Nat) : Incremental (Kind.decode depth) := by
  cases depth with
  | zero => exact incremental_error _
  | succ depth => exact (incremental_variant 6).bind fun variant => incremental_ok _

theorem Declaration.incremental (depth : Nat) : Incremental (Declaration.decode depth) := by
  refine incremental_text.bind fun name => (Kind.incremental depth).bind fun kind => ?_
  refine incremental_word16.bind fun access => ?_
  refine (incremental_option incremental_text).bind fun superType => ?_
  refine (incremental_sequence incremental_text).bind fun interfaces => ?_
  refine (incremental_sequence (Marker.incremental depth)).bind fun markers => ?_
  refine (incremental_sequence (Field.incremental depth)).bind fun fields => ?_
  refine (incremental_sequence (Method.incremental depth)).bind fun methods => ?_
  exact (incremental_sequence (Constructor.incremental depth)).bind fun constructors =>
    incremental_ok _

theorem TypeDef.incremental (depth : Nat) : Incremental (TypeDef.decode depth) := by
  induction depth with
  | zero => exact incremental_error _
  | succ depth ih =>
    refine (Declaration.incremental depth).bind fun declaration => ?_
    exact (incremental_sequence ih).bind fun nested => incremental_ok _

theorem Archive.Entry.incremental (depth : Nat) : Incremental (Archive.Entry.decode depth) := by
  cases depth with
  | zero => exact incremental_error _
  | succ depth =>
    refine incremental_text.bind fun path => incremental_int64.bind fun modified => ?_
    exact incremental_bytes.bind fun content => incremental_ok _

theorem Archive.incremental (depth : Nat) : Incremental (Archive.decode depth) := by
  cases depth with
  | zero => exact incremental_error _
  | succ depth =>
    refine incremental_word32.bind fun version => ?_
    exact (incremental_sequence (Archive.Entry.incremental depth)).bind fun entries =>
      incremental_ok _

/-! ## Files -/

/-- A beginning that is not the whole is cut off before something. -/
theorem exists_append_of_prefix {front content : Bytes} (h : front <+: content)
    (hne : front ≠ content) : ∃ more ≠ [], content = front ++ more := by
  obtain ⟨more, rfl⟩ := h
  refine ⟨more, fun hmore => hne ?_, rfl⟩
  rw [hmore, List.append_nil]

/-- **A file ends where its content does.** A type file that was cut off is malformed because its
input ends, and one that goes on because some input remains; and so is the file of an archive, of
whatever version. -/
theorem ofBytes_selfDelimiting (content : Bytes) :
    (∀ t context, TypeDef.ofBytes content context = .ok t →
      (∀ front, front <+: content → front ≠ content → ∀ context',
        ∃ defect, TypeDef.ofBytes front context' = .error (.malformed context' defect) ∧
          defect.message = "unexpected end of input") ∧
      ∀ more ≠ [], ∀ context',
        ∃ defect, TypeDef.ofBytes (content ++ more) context' = .error (.malformed context' defect) ∧
          defect.message = "remaining input") ∧
    ∀ a, complete (Archive.decode maxDepth) content = .ok a →
      (∀ front, front <+: content → front ≠ content →
        ∃ cause, Archive.ofBytes front = .error (.decode cause) ∧
          cause.message = "unexpected end of input") ∧
      ∀ more ≠ [],
        ∃ cause, Archive.ofBytes (content ++ more) = .error (.decode cause) ∧
          cause.message = "remaining input" := by
  refine ⟨fun t context h => ?_, fun a h => ?_⟩
  · have hread := mapError_eq_ok.1 h
    refine ⟨fun front hfront hne context' => ?_, fun more hmore context' => ?_⟩
    · obtain ⟨more, hmore, rfl⟩ := exists_append_of_prefix hfront hne
      refine ⟨.wire .endOfInput, ?_, rfl⟩
      rw [TypeDef.ofBytes, (TypeDef.incremental maxDepth).complete_cut hread hmore]
      rfl
    · refine ⟨.wire .remainingInput, ?_, rfl⟩
      rw [TypeDef.ofBytes, (TypeDef.incremental maxDepth).complete_append hread hmore]
      rfl
  · refine ⟨fun front hfront hne => ?_, fun more hmore => ?_⟩
    · obtain ⟨more, hmore, rfl⟩ := exists_append_of_prefix hfront hne
      refine ⟨.endOfInput, ?_, rfl⟩
      rw [Archive.ofBytes, (Archive.incremental maxDepth).complete_cut h hmore]
      rfl
    · refine ⟨.remainingInput, ?_, rfl⟩
      rw [Archive.ofBytes, (Archive.incremental maxDepth).complete_append h hmore]
      rfl

/-- An archive with a single entry. -/
def Archive.oneEntry : Archive := Archive.empty.add "p/A.ctype" 5 [7]

def Archive.oneEntryFile : Bytes :=
  [1, 0, 0, 0, 1, 9, 112, 47, 65, 46, 99, 116, 121, 112, 101, 5, 0, 0, 0, 0, 0, 0, 0, 1, 7]

theorem ofBytes_selfDelimiting_annotated :
    (TypeDef.ofBytes TypeDef.annotatedFile "p/A.ctype" = .ok TypeDef.annotated ∧
      ∃ defect, TypeDef.ofBytes (TypeDef.annotatedFile.take 20) "cut" =
          .error (.malformed "cut" defect) ∧ defect.message = "unexpected end of input") ∧
    complete (Archive.decode maxDepth) Archive.oneEntryFile = .ok Archive.oneEntry ∧
      ∃ cause, Archive.ofBytes (Archive.oneEntryFile ++ [0]) = .error (.decode cause) ∧
        cause.message = "remaining input" := by
  have htype : TypeDef.ofBytes TypeDef.annotatedFile "p/A.ctype" = .ok TypeDef.annotated := by
    decide +kernel
  have harchive :
      complete (Archive.decode maxDepth) Archive.oneEntryFile = .ok Archive.oneEntry := by
    decide +kernel
  refine ⟨⟨htype, ?_⟩, harchive, ?_⟩
  · exact ((ofBytes_selfDelimiting _).1 _ _ htype).1 _ (List.take_prefix 20 _) (by decide) "cut"
  · exact ((ofBytes_selfDelimiting _).2 _ harchive).2 [0] (by decide)

end Mixins
