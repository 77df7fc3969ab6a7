import Mixins.Proofs.Attempt
import Mixins.Wire

/-!
# Bytes that are cut off or go on

A decoder takes its value off the front of the bytes and looks no further. What follows the value
makes no difference to it. Where bytes that hold a value are cut off inside it, all that was read
before the cut was in order, so the first thing that goes wrong is that the bytes end.

* `Incremental` — what such a decoder does with a beginning and with a continuation of bytes that
  it has read.
* `Incremental.bind` — a decoder after another one.
* `incremental_text`, `incremental_option`, `incremental_sequence`, `incremental_map` — the decoders
  of the format.
* `Incremental.complete_cut`, `Incremental.complete_append` — where a value must be all there is.
-/

namespace Mixins.Wire

open Utf8 (Bytes)

structure Incremental {α : Type} (decode : Decoder α) : Prop where
  /-- What follows the bytes is left as it is. -/
  append : ∀ {front a rest}, decode front = .ok (a, rest) →
    ∀ more, decode (front ++ more) = .ok (a, rest ++ more)
  /-- A beginning of the bytes ends too early, or holds the whole value. -/
  cut : ∀ {front more a rest}, decode (front ++ more) = .ok (a, rest) →
    decode front = .error .endOfInput ∨ ∃ left, decode front = .ok (a, left) ∧ rest = left ++ more

variable {α β : Type} {decode : Decoder α}

/-! ## Decoders made of others -/

theorem incremental_ok (a : α) : Incremental fun bytes => .ok (a, bytes) where
  append h more := by
    cases h
    rfl
  cut h := by
    cases h
    exact .inr ⟨_, rfl, rfl⟩

theorem incremental_error (cause : Error) :
    Incremental fun _ => (.error cause : Except Error (α × Bytes)) where
  append h := nomatch h
  cut h := nomatch h

/-- The second decoder starts where the first has stopped. -/
theorem Incremental.bind {next : α × Bytes → Except Error (β × Bytes)} (h : Incremental decode)
    (hnext : ∀ a, Incremental fun rest => next (a, rest)) :
    Incremental fun bytes => decode bytes >>= next where
  append hread more := by
    obtain ⟨⟨a, rest⟩, ha, hb⟩ := bind_eq_ok.1 hread
    rw [h.append ha more, ok_bind]
    exact (hnext a).append hb more
  cut {front more b rest} hread := by
    obtain ⟨⟨a, between⟩, ha, hb⟩ := bind_eq_ok.1 hread
    rcases h.cut ha with hend | ⟨left, hleft, rfl⟩
    · left
      rw [hend]
      rfl
    · rw [hleft, ok_bind]
      exact (hnext a).cut hb

/-- A decoder that reads a byte and goes on with what follows it. -/
theorem Incremental.ofByte (hnil : decode [] = .error .endOfInput)
    (hcons : ∀ b, Incremental fun bytes => decode (b :: bytes)) : Incremental decode where
  append {front a rest} hread more := by
    cases front with
    | nil =>
      rw [hnil] at hread
      cases hread
    | cons b front => exact (hcons b).append hread more
  cut {front more a rest} hread := by
    cases front with
    | nil => exact .inl hnil
    | cons b front => exact (hcons b).cut hread

theorem Incremental.ite {decode' : Decoder α} (c : Prop) [Decidable c] (h : Incremental decode)
    (h' : Incremental decode') :
    Incremental fun bytes => if c then decode bytes else decode' bytes := by
  by_cases hc : c
  · simpa only [if_pos hc] using h
  · simpa only [if_neg hc] using h'

/-- A step that reads nothing may fail. -/
theorem Incremental.afterStep {γ : Type} {next : γ → Decoder α} (step : Except Error γ)
    (hnext : ∀ c, Incremental (next c)) :
    Incremental fun bytes => step >>= fun c => next c bytes := by
  cases step with
  | error cause => exact incremental_error cause
  | ok c => exact hnext c

/-! ## Numbers -/

theorem incremental_groups (left : Nat) (first : Bool) : Incremental (decodeGroups left first) := by
  induction left generalizing first with
  | zero => exact incremental_error _
  | succ left ih =>
    refine .ofByte rfl fun b => ?_
    refine .ite _ (.ite _ (incremental_error _) (incremental_ok _)) ?_
    exact (ih false).bind fun n => incremental_ok _

theorem incremental_index : Incremental decodeIndex :=
  (incremental_groups 5 true).bind fun _ => .ite _ (incremental_ok _) (incremental_error _)

theorem incremental_length : Incremental decodeLength :=
  incremental_index.bind fun _ => .ite _ (incremental_ok _) (incremental_error _)

theorem incremental_variant (count : Nat) : Incremental (decodeVariant count) :=
  incremental_index.bind fun _ => .ite _ (incremental_ok _) (incremental_error _)

theorem incremental_little (width : Nat) : Incremental (decodeLittle width) := by
  induction width with
  | zero => exact incremental_ok 0
  | succ width ih => exact .ofByte rfl fun b => ih.bind fun n => incremental_ok _

theorem incremental_word16 : Incremental decodeWord16 :=
  (incremental_little 2).bind fun _ => incremental_ok _

theorem incremental_word32 : Incremental decodeWord32 :=
  (incremental_little 4).bind fun _ => incremental_ok _

theorem incremental_int64 : Incremental decodeInt64 :=
  (incremental_little 8).bind fun _ => incremental_ok _

theorem incremental_bool : Incremental decodeBool :=
  .ofByte rfl fun _ => .ite _ (incremental_ok _) (.ite _ (incremental_ok _) (incremental_error _))

/-! ## Texts, options, sequences and maps -/

theorem incremental_take (count : Nat) : Incremental (take count) := by
  induction count with
  | zero => exact incremental_ok []
  | succ count ih => exact .ofByte rfl fun b => ih.bind fun taken => incremental_ok _

theorem incremental_bytes : Incremental decodeBytes :=
  incremental_length.bind incremental_take

theorem incremental_text : Incremental decodeText := by
  refine incremental_bytes.bind fun content => ?_
  dsimp only
  cases Utf8.decode? content with
  | some s => exact incremental_ok s
  | none => exact incremental_error _

theorem incremental_option (h : Incremental decode) : Incremental (decodeOption decode) := by
  refine .ofByte rfl fun b => .ite _ (incremental_ok _) (.ite _ ?_ (incremental_error _))
  exact h.bind fun a => incremental_ok _

theorem incremental_items (h : Incremental decode) (count : Nat) :
    Incremental (decodeItems decode count) := by
  induction count with
  | zero => exact incremental_ok []
  | succ count ih => exact h.bind fun a => ih.bind fun as => incremental_ok _

theorem incremental_sequence (h : Incremental decode) : Incremental (decodeSequence decode) :=
  incremental_length.bind (incremental_items h)

/-- Whether the keys are in order can be seen from the keys that have been read. -/
theorem incremental_entries (h : Incremental decode) (count : Nat) (last : Option Bytes) :
    Incremental (decodeEntries decode count last) := by
  induction count generalizing last with
  | zero => exact incremental_ok []
  | succ count ih =>
    refine incremental_text.bind fun key => .afterStep (text key) fun keyBytes => ?_
    refine .ite _ (incremental_error _) ?_
    exact h.bind fun a => (ih _).bind fun as => incremental_ok _

theorem incremental_map (h : Incremental decode) : Incremental (decodeMap decode) :=
  incremental_length.bind fun count => incremental_entries h count none

/-! ## Values that must be all there is -/

/-- **Bytes that are cut off**: that they end is the first thing that goes wrong. -/
theorem Incremental.complete_cut (h : Incremental decode) {front more : Bytes} {a : α}
    (hread : complete decode (front ++ more) = .ok a) (hmore : more ≠ []) :
    complete decode front = .error .endOfInput := by
  obtain ⟨⟨a', rest⟩, ha, heq⟩ := bind_eq_ok.1 hread
  simp only at heq
  split at heq
  · rename_i hrest
    rcases h.cut ha with hend | ⟨left, -, hleft⟩
    · rw [complete, hend]
      rfl
    · rw [hrest] at hleft
      exact absurd (List.append_eq_nil_iff.1 hleft.symm).2 hmore
  · cases heq

/-- **Bytes that go on** after the value. -/
theorem Incremental.complete_append (h : Incremental decode) {bytes more : Bytes} {a : α}
    (hread : complete decode bytes = .ok a) (hmore : more ≠ []) :
    complete decode (bytes ++ more) = .error .remainingInput := by
  obtain ⟨⟨a', rest⟩, ha, heq⟩ := bind_eq_ok.1 hread
  simp only at heq
  split at heq
  · rename_i hrest
    rw [complete, h.append ha more, ok_bind]
    simp only [hrest, List.nil_append, if_neg hmore]
  · cases heq

end Mixins.Wire
