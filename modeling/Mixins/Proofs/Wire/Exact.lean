import Mathlib.Data.List.Nodup
import Mathlib.Data.List.Perm.Basic
import Mixins.Proofs.Wire.RoundTrip

/-!
# Nothing else is read

Whatever bytes a decoder takes off the front are the ones that the encoder writes for the value. A
number with idle groups, entries of a map in another order and a longer form of a character are not
read at all.

* `Exact` — a decoder reads only what an encoder writes.
* `index_of_decodeIndex`, `little_of_decodeLittle` — numbers.
* `exact_text`, `exact_option`, `exact_sequence` — what is composed from them.
* `map_of_decodeMap` — entries that are read have different keys, and are written as they were read
  whatever order they are in meanwhile.
-/

namespace Mixins.Wire

open Utf8 (Bytes)

/-- Whether the decoder reads only what the encoder writes. -/
def Exact {α : Type} (encode : α → Encoded) (decode : Decoder α) : Prop :=
  ∀ bytes a rest, decode bytes = .ok (a, rest) →
    ∃ front, encode a = .ok front ∧ bytes = front ++ rest

/-! ## Numbers -/

theorem toUInt8_toNat (b : UInt8) : b.toNat.toUInt8 = b :=
  UInt8.ofNat_toNat

theorem groups_of_lt {n : Nat} (h : n < 128) (further : Nat) : groups further n = [n.toUInt8] := by
  cases further with
  | zero => rfl
  | succ further => simp only [groups, if_pos h]

/-- A byte below 128 is the last one, and then not zero unless it is the first. -/
theorem decodeGroups_cons_eq_ok {left n : Nat} {first : Bool} {b : UInt8} {tail rest : Bytes}
    (h : decodeGroups (left + 1) first (b :: tail) = .ok (n, rest)) :
    (b.toNat < 128 ∧ (first = false → b.toNat ≠ 0) ∧ n = b.toNat ∧ tail = rest) ∨
      (128 ≤ b.toNat ∧ ∃ high, decodeGroups left false tail = .ok (high, rest) ∧
        n = b.toNat - 128 + 128 * high) := by
  simp only [decodeGroups] at h
  split at h
  · rename_i hlow
    split at h
    · cases h
    · rename_i hidle
      cases h
      refine .inl ⟨hlow, fun hfirst hzero => hidle ?_, rfl, rfl⟩
      have hb : b = 0 := UInt8.toNat_inj.1 hzero
      simp [hfirst, hb]
  · rename_i hhigh
    obtain ⟨⟨high, rest'⟩, hrest, heq⟩ := bind_eq_ok.1 h
    cases heq
    exact .inr ⟨by omega, high, hrest, rfl⟩

/-- A number is read from its groups only: the last one is not idle. -/
theorem groups_of_decodeGroups {further n : Nat} {first : Bool} {bytes rest : Bytes}
    (h : decodeGroups (further + 1) first bytes = .ok (n, rest)) :
    bytes = groups further n ++ rest ∧ n < 128 ^ (further + 1) ∧ (first = false → n ≠ 0) := by
  induction further generalizing n first bytes with
  | zero =>
    cases bytes with
    | nil => cases h
    | cons b tail =>
      obtain ⟨hlow, hidle, rfl, rfl⟩ | ⟨-, _, hrest, -⟩ := decodeGroups_cons_eq_ok h
      · exact ⟨by rw [groups_of_lt hlow, toUInt8_toNat, List.singleton_append], hlow, hidle⟩
      · cases hrest
  | succ further ih =>
    cases bytes with
    | nil => cases h
    | cons b tail =>
      obtain ⟨hlow, hidle, rfl, rfl⟩ | ⟨hhigh, high, hrest, rfl⟩ := decodeGroups_cons_eq_ok h
      · have hbound : 128 ^ 1 ≤ 128 ^ (further + 1 + 1) :=
          Nat.pow_le_pow_right (by omega) (by omega)
        exact ⟨by rw [groups_of_lt hlow, toUInt8_toNat, List.singleton_append], by omega, hidle⟩
      · obtain ⟨rfl, hbound, hne⟩ := ih hrest
        have hpositive : high ≠ 0 := hne rfl
        have hb : b.toNat < 256 := b.toNat_lt
        have hlow : (b.toNat - 128 + 128 * high) % 128 + 128 = b.toNat := by omega
        have hdiv : (b.toNat - 128 + 128 * high) / 128 = high := by omega
        refine ⟨?_, ?_, fun _ => by omega⟩
        · rw [groups, if_neg (by omega), hlow, hdiv, toUInt8_toNat, List.cons_append]
        · rw [Nat.pow_succ]
          omega

theorem index_of_decodeIndex {n : Nat} {bytes rest : Bytes}
    (h : decodeIndex bytes = .ok (n, rest)) : bytes = index n ++ rest := by
  obtain ⟨⟨m, rest'⟩, hgroups, h⟩ := bind_eq_ok.1 h
  simp only at h
  split at h
  · cases h
    exact (groups_of_decodeGroups hgroups).1
  · cases h

theorem index_of_decodeVariant {count n : Nat} {bytes rest : Bytes}
    (h : decodeVariant count bytes = .ok (n, rest)) : bytes = index n ++ rest ∧ n < count := by
  obtain ⟨⟨m, rest'⟩, hindex, h⟩ := bind_eq_ok.1 h
  simp only at h
  split at h
  · rename_i hn
    cases h
    exact ⟨index_of_decodeIndex hindex, hn⟩
  · cases h

theorem exact_length : Exact length decodeLength := by
  intro bytes n rest h
  obtain ⟨⟨m, rest'⟩, hindex, h⟩ := bind_eq_ok.1 h
  simp only at h
  split at h
  · rename_i hn
    cases h
    exact ⟨index n, if_pos hn, index_of_decodeIndex hindex⟩
  · cases h

theorem little_of_decodeLittle {width n : Nat} {bytes rest : Bytes}
    (h : decodeLittle width bytes = .ok (n, rest)) :
    bytes = little width n ++ rest ∧ n < 256 ^ width := by
  induction width generalizing n bytes with
  | zero =>
    cases h
    exact ⟨rfl, by omega⟩
  | succ width ih =>
    cases bytes with
    | nil => cases h
    | cons b tail =>
      obtain ⟨⟨high, rest'⟩, hrest, heq⟩ := bind_eq_ok.1 h
      cases heq
      obtain ⟨rfl, hbound⟩ := ih hrest
      have hb : b.toNat < 256 := b.toNat_lt
      have hlow : (b.toNat + 256 * high).toUInt8 = b := by
        apply UInt8.toNat_inj.1
        simp only [Nat.toUInt8, UInt8.toNat_ofNat', Nat.reducePow]
        omega
      have hdiv : (b.toNat + 256 * high) / 256 = high := by omega
      refine ⟨?_, ?_⟩
      · rw [little, hlow, hdiv, List.cons_append]
      · rw [Nat.pow_succ]
        omega

theorem word16_of_decodeWord16 {n : UInt16} {bytes rest : Bytes}
    (h : decodeWord16 bytes = .ok (n, rest)) : bytes = word16 n ++ rest := by
  obtain ⟨⟨m, rest'⟩, hlittle, heq⟩ := bind_eq_ok.1 h
  cases heq
  obtain ⟨rfl, hbound⟩ := little_of_decodeLittle hlittle
  rw [word16, UInt16.toNat_ofNat_of_lt' hbound]

theorem int64_of_decodeInt64 {n : Int64} {bytes rest : Bytes}
    (h : decodeInt64 bytes = .ok (n, rest)) : bytes = int64 n ++ rest := by
  obtain ⟨⟨m, rest'⟩, hlittle, heq⟩ := bind_eq_ok.1 h
  cases heq
  obtain ⟨rfl, hbound⟩ := little_of_decodeLittle hlittle
  rw [int64, UInt64.toUInt64_toInt64, UInt64.toNat_ofNat_of_lt' hbound]

theorem bool_of_decodeBool {b : Bool} {bytes rest : Bytes}
    (h : decodeBool bytes = .ok (b, rest)) : bytes = bool b ++ rest := by
  cases bytes with
  | nil => cases h
  | cons first tail =>
    simp only [decodeBool] at h
    split at h
    · rename_i hzero
      cases h
      rw [hzero]
      rfl
    · split at h
      · rename_i hone
        cases h
        rw [hone]
        rfl
      · cases h

/-! ## Texts, options and sequences -/

theorem append_of_take {count : Nat} {taken bytes rest : Bytes}
    (h : take count bytes = .ok (taken, rest)) :
    bytes = taken ++ rest ∧ taken.length = count := by
  induction count generalizing taken bytes with
  | zero =>
    cases h
    exact ⟨rfl, rfl⟩
  | succ count ih =>
    cases bytes with
    | nil => cases h
    | cons b tail =>
      obtain ⟨⟨others, rest'⟩, hrest, heq⟩ := bind_eq_ok.1 h
      cases heq
      obtain ⟨rfl, hlength⟩ := ih hrest
      exact ⟨rfl, by rw [List.length_cons, hlength]⟩

theorem exact_bytes : Exact bytes decodeBytes := by
  intro encoded content rest h
  obtain ⟨⟨n, rest'⟩, hn, htake⟩ := bind_eq_ok.1 h
  obtain ⟨front, hfront, rfl⟩ := exact_length _ _ _ hn
  obtain ⟨rfl, rfl⟩ := append_of_take htake
  refine ⟨front ++ content, ?_, (List.append_assoc _ _ _).symm⟩
  rw [bytes, hfront]
  rfl

/-- A text is read from its own UTF-8 form only. -/
theorem exact_text : Exact text decodeText := by
  intro encoded s rest h
  obtain ⟨⟨content, rest'⟩, hcontent, h⟩ := bind_eq_ok.1 h
  simp only at h
  split at h
  · rename_i hdecode
    cases h
    obtain ⟨front, hfront, rfl⟩ := exact_bytes _ _ _ hcontent
    exact ⟨front, by rw [text, Utf8.encode_of_decode? hdecode, hfront], rfl⟩
  · cases h

variable {α : Type} {encode : α → Encoded} {decode : Decoder α}

/-- A value that is made of one content is read from the bytes of that content only. -/
theorem Exact.content {β : Type} (h : Exact encode decode) {make : α → β} {b : β}
    {bytes rest : Bytes}
    (hread : (do let (a, rest) ← decode bytes; .ok (make a, rest)) = Except.ok (b, rest)) :
    ∃ a front, make a = b ∧ encode a = .ok front ∧ bytes = front ++ rest := by
  obtain ⟨⟨a, rest'⟩, ha, heq⟩ := bind_eq_ok.1 hread
  cases heq
  obtain ⟨front, hfront, rfl⟩ := h _ _ _ ha
  exact ⟨a, front, rfl, hfront, rfl⟩

theorem exact_option (h : Exact encode decode) : Exact (option encode) (decodeOption decode) := by
  intro encoded a rest hread
  cases encoded with
  | nil => cases hread
  | cons first tail =>
    simp only [decodeOption] at hread
    split at hread
    · rename_i hzero
      cases hread
      exact ⟨[0], rfl, by rw [hzero, List.singleton_append]⟩
    · split at hread
      · rename_i hone
        obtain ⟨b, front, rfl, hfront, rfl⟩ := h.content hread
        refine ⟨1 :: front, ?_, by rw [hone, List.cons_append]⟩
        rw [option, hfront]
        rfl
      · cases hread

theorem items_of_decodeItems (h : Exact encode decode) {count : Nat} {as : List α}
    {bytes rest : Bytes} (hread : decodeItems decode count bytes = .ok (as, rest)) :
    as.length = count ∧ ∃ front, items encode as = .ok front ∧ bytes = front ++ rest := by
  induction count generalizing as bytes with
  | zero =>
    cases hread
    exact ⟨rfl, [], rfl, rfl⟩
  | succ count ih =>
    obtain ⟨⟨a, rest₁⟩, ha, hread⟩ := bind_eq_ok.1 hread
    obtain ⟨⟨others, rest₂⟩, hothers, heq⟩ := bind_eq_ok.1 hread
    cases heq
    obtain ⟨front, hfront, rfl⟩ := h _ _ _ ha
    obtain ⟨hlength, content, hcontent, rfl⟩ := ih hothers
    refine ⟨by rw [List.length_cons, hlength], front ++ content, ?_,
      (List.append_assoc _ _ _).symm⟩
    rw [items, hfront, ok_bind, hcontent]
    rfl

theorem exact_sequence (h : Exact encode decode) :
    Exact (sequence encode) (decodeSequence decode) := by
  intro encoded as rest hread
  obtain ⟨⟨n, rest'⟩, hn, hitems⟩ := bind_eq_ok.1 hread
  obtain ⟨front, hfront, rfl⟩ := exact_length _ _ _ hn
  obtain ⟨rfl, content, hcontent, rfl⟩ := items_of_decodeItems h hitems
  refine ⟨front ++ content, ?_, (List.append_assoc _ _ _).symm⟩
  rw [sequence, hfront, ok_bind, hcontent]
  rfl

/-! ## Maps -/

/-- The keys that are read have increasing bytes, all of them after `last`. -/
theorem entries_of_decodeEntries (h : Exact encode decode) {count : Nat} {last : Option Bytes}
    {as : List (String × α)} {bytes rest : Bytes}
    (hread : decodeEntries decode count last bytes = .ok (as, rest)) :
    ∃ pairs, List.Forall₂ (WrittenAs encode) as pairs ∧ pairs.length = count ∧
      bytes = pairs.flatMap (fun (key, a) => key ++ a) ++ rest ∧
      (last.toList ++ pairs.map (·.1)).Pairwise (· < ·) := by
  induction count generalizing last as bytes with
  | zero =>
    cases hread
    refine ⟨[], .nil, rfl, rfl, ?_⟩
    cases last <;> simp
  | succ count ih =>
    obtain ⟨⟨key, rest₁⟩, hkey, hread⟩ := bind_eq_ok.1 hread
    obtain ⟨keyBytes, hkeyBytes, hread⟩ := bind_eq_ok.1 hread
    simp only at hread
    split at hread
    · cases hread
    rename_i horder
    obtain ⟨⟨a, rest₂⟩, ha, hread⟩ := bind_eq_ok.1 hread
    obtain ⟨⟨others, rest₃⟩, hothers, heq⟩ := bind_eq_ok.1 hread
    cases heq
    obtain ⟨front, hfront, rfl⟩ := exact_text _ _ _ hkey
    obtain rfl : front = keyBytes := by simpa using hfront.symm.trans hkeyBytes
    obtain ⟨value, hvalue, rfl⟩ := h _ _ _ ha
    obtain ⟨pairs, hpairs, rfl, rfl, hincreasing⟩ := ih hothers
    refine ⟨(front, value) :: pairs, .cons ⟨hfront, hvalue⟩ hpairs, rfl, ?_, ?_⟩
    · simp only [List.flatMap_cons, List.append_assoc]
    · cases last with
      | none => exact hincreasing
      | some l =>
        have hl : l < front := by simpa using horder
        have hafter := (List.pairwise_cons.1 hincreasing).1
        refine List.pairwise_cons.2 ⟨fun k hk => ?_, hincreasing⟩
        rcases List.mem_cons.1 hk with rfl | hk
        · exact hl
        · exact List.lt_trans hl (hafter k hk)

/-- Pairs in the order of their keys are what sorting makes of them in any order. -/
theorem mergeSort_of_perm {pairs pairs' : List (Bytes × Bytes)} (h : pairs'.Perm pairs)
    (hsorted : (pairs.map (·.1)).Pairwise (· < ·)) :
    (pairs'.mergeSort fun a b => decide (a.1 ≤ b.1)) = pairs := by
  have hperm := (List.mergeSort_perm pairs' fun a b => decide (a.1 ≤ b.1)).trans h
  have hle : pairs.Pairwise fun a b => a.1 ≤ b.1 :=
    (List.pairwise_map.1 hsorted).imp fun hlt => List.le_of_lt hlt
  have hnodup : (pairs.map (·.1)).Nodup := hsorted.nodup
  refine hperm.eq_of_pairwise (fun a b ha hb hab hba => ?_)
    (List.pairwise_map.1 (pairwise_sortedByKey pairs')) hle
  exact List.inj_on_of_nodup_map hnodup (hperm.subset ha) hb (List.le_antisymm hab hba)

/-- **Maps.** The entries have different keys, and are written as they were read whatever order they
have meanwhile. -/
theorem map_of_decodeMap (h : Exact encode decode) {as : List (String × α)} {bytes rest : Bytes}
    (hread : decodeMap decode bytes = .ok (as, rest)) :
    (as.map (·.1)).Nodup ∧
      ∀ as', as'.Perm as → ∃ front, map encode as' = .ok front ∧ bytes = front ++ rest := by
  obtain ⟨⟨n, rest'⟩, hn, hentries⟩ := bind_eq_ok.1 hread
  obtain ⟨len, hlen, rfl⟩ := exact_length _ _ _ hn
  obtain ⟨pairs, hpairs, rfl, rfl, hincreasing⟩ := entries_of_decodeEntries h hentries
  have hnodup : (pairs.map (·.1)).Nodup := hincreasing.nodup
  refine ⟨(keys_nodup_iff hpairs).2 hnodup, fun as' has' => ?_⟩
  obtain ⟨pairs', hpairs', hperm⟩ := List.perm_comp_forall₂ has' hpairs
  refine ⟨len ++ pairs.flatMap fun (key, a) => key ++ a, ?_, (List.append_assoc _ _ _).symm⟩
  simp only [map, bind_eq_ok, pure_eq_ok]
  refine ⟨pairs', entries_eq_ok.2 hpairs', len, ?_, ?_⟩ <;>
    rw [mergeSort_of_perm hperm hincreasing]
  exact hlen

end Mixins.Wire
