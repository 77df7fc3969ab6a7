import Mathlib.Algebra.Ring.Nat
import Mathlib.Data.List.Nodup
import Mathlib.Data.List.Perm.Basic
import Mixins.Proofs.Attempt
import Mixins.Wire

/-!
# Reading back what was written

A decoder takes just the bytes that the encoder has written off the front, whatever follows them.

* `Reads` — a decoder reads back what an encoder writes.
* `decodeIndex_index`, `decodeLittle_little` — numbers.
* `reads_text`, `reads_option`, `reads_sequence` — what is composed from them.
* `decodeMap_map` — the entries of a map come back by increasing bytes of their keys.
-/

namespace Mixins.Wire

open Utf8 (Bytes)

/-- Whether the decoder reads back whatever the encoder writes. -/
def Reads {α : Type} (encode : α → Encoded) (decode : Decoder α) : Prop :=
  ∀ a bytes, encode a = .ok bytes → ∀ rest, decode (bytes ++ rest) = .ok (a, rest)

/-! ## Numbers -/

theorem toNat_toUInt8 {n : Nat} (h : n < 256) : n.toUInt8.toNat = n := by
  simp only [Nat.toUInt8, UInt8.toNat_ofNat', Nat.reducePow]
  omega

theorem decodeGroups_last {n : Nat} (h : n < 128) (left : Nat) {first : Bool}
    (hfirst : first = false → n ≠ 0) (rest : Bytes) :
    decodeGroups (left + 1) first (n.toUInt8 :: rest) = .ok (n, rest) := by
  have hbyte : n.toUInt8.toNat = n := toNat_toUInt8 (by omega)
  cases first with
  | true => simp [decodeGroups, hbyte, h]
  | false =>
    have hne : n.toUInt8 ≠ 0 := by
      intro hzero
      rw [hzero] at hbyte
      exact hfirst rfl hbyte.symm
    simp [decodeGroups, hbyte, h, hne]

/-- A number is read back from its groups. The first group may be zero; one that ends a number of
several groups is not. -/
theorem decodeGroups_groups {further n : Nat} (h : n < 128 ^ (further + 1)) {first : Bool}
    (hfirst : first = false → n ≠ 0) (rest : Bytes) :
    decodeGroups (further + 1) first (groups further n ++ rest) = .ok (n, rest) := by
  induction further generalizing n first with
  | zero => exact decodeGroups_last (by simpa using h) 0 hfirst rest
  | succ further ih =>
    unfold groups
    split
    · rename_i hn
      exact decodeGroups_last hn (further + 1) hfirst rest
    · rename_i hn
      have hbyte : (n % 128 + 128).toUInt8.toNat = n % 128 + 128 := toNat_toUInt8 (by omega)
      have hhigh : n / 128 < 128 ^ (further + 1) := by
        rw [Nat.div_lt_iff_lt_mul (by omega), ← Nat.pow_succ]
        exact h
      have hne : n / 128 ≠ 0 := by omega
      simp only [List.cons_append, decodeGroups, hbyte, ih hhigh (fun _ => hne), ok_bind]
      rw [if_neg (by omega)]
      simp only [Except.ok.injEq, Prod.mk.injEq, and_true]
      omega

theorem decodeIndex_index {n : Nat} (h : n < indexLimit) (rest : Bytes) :
    decodeIndex (index n ++ rest) = .ok (n, rest) := by
  have hgroups : n < 128 ^ 5 := by
    simp only [indexLimit] at h
    omega
  have hread := decodeGroups_groups hgroups (Bool.noConfusion : true = false → n ≠ 0) rest
  simp only [decodeIndex, index, hread, ok_bind, if_pos h]

theorem decodeVariant_index {n count : Nat} (h : n < count) (hcount : count ≤ indexLimit)
    (rest : Bytes) : decodeVariant count (index n ++ rest) = .ok (n, rest) := by
  simp only [decodeVariant, decodeIndex_index (Nat.lt_of_lt_of_le h hcount), ok_bind, if_pos h]

theorem reads_length : Reads length decodeLength := by
  intro n bytes h rest
  unfold length at h
  split at h
  · rename_i hn
    have hlimit : n < indexLimit := by
      simp only [maxLength, indexLimit] at *
      omega
    cases h
    simp only [decodeLength, decodeIndex_index hlimit, ok_bind, if_pos hn]
  · cases h

theorem decodeLittle_little {width n : Nat} (h : n < 256 ^ width) (rest : Bytes) :
    decodeLittle width (little width n ++ rest) = .ok (n, rest) := by
  induction width generalizing n with
  | zero =>
    have hn : n = 0 := by simpa using h
    simp [little, decodeLittle, hn]
  | succ width ih =>
    have hhigh : n / 256 < 256 ^ width := by
      rw [Nat.div_lt_iff_lt_mul (by omega), ← Nat.pow_succ]
      exact h
    have hbyte : n.toUInt8.toNat = n % 256 := by
      simp only [Nat.toUInt8, UInt8.toNat_ofNat', Nat.reducePow]
    simp only [little, List.cons_append, decodeLittle, ih hhigh, ok_bind, hbyte, Except.ok.injEq,
      Prod.mk.injEq, and_true]
    omega

theorem decodeWord16_word16 (n : UInt16) (rest : Bytes) :
    decodeWord16 (word16 n ++ rest) = .ok (n, rest) := by
  have hn : n.toNat < 256 ^ 2 := by simpa using n.toNat_lt
  simp only [decodeWord16, word16, decodeLittle_little hn, ok_bind, UInt16.ofNat_toNat]

theorem decodeWord32_word32 (n : UInt32) (rest : Bytes) :
    decodeWord32 (word32 n ++ rest) = .ok (n, rest) := by
  have hn : n.toNat < 256 ^ 4 := by simpa using n.toNat_lt
  simp only [decodeWord32, word32, decodeLittle_little hn, ok_bind, UInt32.ofNat_toNat]

theorem decodeInt64_int64 (n : Int64) (rest : Bytes) :
    decodeInt64 (int64 n ++ rest) = .ok (n, rest) := by
  have hn : n.toUInt64.toNat < 256 ^ 8 := by simpa using n.toUInt64.toNat_lt
  simp only [decodeInt64, int64, decodeLittle_little hn, ok_bind, UInt64.ofNat_toNat]
  rfl

theorem decodeBool_bool (b : Bool) (rest : Bytes) :
    decodeBool (bool b ++ rest) = .ok (b, rest) := by
  cases b <;> simp [bool, decodeBool]

/-! ## Texts, options and sequences -/

theorem take_append (content rest : Bytes) :
    take content.length (content ++ rest) = .ok (content, rest) := by
  induction content with
  | nil => rfl
  | cons b content ih => simp only [List.length_cons, List.cons_append, take, ih, ok_bind]

theorem reads_bytes : Reads bytes decodeBytes := by
  intro content encoded h rest
  simp only [bytes, bind_eq_ok, pure_eq_ok] at h
  obtain ⟨len, hlen, rfl⟩ := h
  simp only [decodeBytes, List.append_assoc, reads_length _ _ hlen, ok_bind, take_append]

theorem reads_text : Reads text decodeText := by
  intro s encoded h rest
  simp only [decodeText, reads_bytes _ _ h, ok_bind, Utf8.decode?_encode]

variable {α : Type} {encode : α → Encoded} {decode : Decoder α}

theorem reads_option (h : Reads encode decode) : Reads (option encode) (decodeOption decode) := by
  intro a encoded hencoded rest
  cases a with
  | none =>
    cases hencoded
    simp [decodeOption]
  | some a =>
    simp only [option, bind_eq_ok, pure_eq_ok] at hencoded
    obtain ⟨bytes, hbytes, rfl⟩ := hencoded
    simp [decodeOption, h _ _ hbytes, ok_bind]

theorem decodeItems_items (h : Reads encode decode) {as : List α} {bytes : Bytes}
    (hbytes : items encode as = .ok bytes) (rest : Bytes) :
    decodeItems decode as.length (bytes ++ rest) = .ok (as, rest) := by
  induction as generalizing bytes with
  | nil =>
    cases hbytes
    rfl
  | cons a as ih =>
    simp only [items, bind_eq_ok, pure_eq_ok] at hbytes
    obtain ⟨first, hfirst, others, hothers, rfl⟩ := hbytes
    simp only [List.length_cons, decodeItems, List.append_assoc, h _ _ hfirst, ih hothers, ok_bind]

theorem reads_sequence (h : Reads encode decode) :
    Reads (sequence encode) (decodeSequence decode) := by
  intro as encoded hencoded rest
  simp only [sequence, bind_eq_ok, pure_eq_ok] at hencoded
  obtain ⟨len, hlen, content, hcontent, rfl⟩ := hencoded
  simp only [decodeSequence, List.append_assoc, reads_length _ _ hlen, ok_bind,
    decodeItems_items h hcontent]

/-! ## Maps -/

/-- Whether an entry is written as the bytes of its key and the bytes of its value. -/
def WrittenAs {α : Type} (encode : α → Encoded) (entry : String × α) (pair : Bytes × Bytes) :
    Prop :=
  text entry.1 = .ok pair.1 ∧ encode entry.2 = .ok pair.2

theorem entries_eq_ok {as : List (String × α)} {pairs : List (Bytes × Bytes)} :
    entries encode as = .ok pairs ↔ List.Forall₂ (WrittenAs encode) as pairs := by
  induction as generalizing pairs with
  | nil => simp [entries, eq_comm]
  | cons entry as ih =>
    simp only [entries, bind_eq_ok, pure_eq_ok, ih, List.forall₂_cons_left_iff, WrittenAs]
    constructor
    · rintro ⟨key, hkey, value, hvalue, pairs, hpairs, rfl⟩
      exact ⟨(key, value), pairs, ⟨hkey, hvalue⟩, hpairs, rfl⟩
    · rintro ⟨⟨key, value⟩, pairs, ⟨hkey, hvalue⟩, hpairs, rfl⟩
      exact ⟨key, hkey, value, hvalue, pairs, hpairs, rfl⟩

theorem text_injective {s s' : String} {bytes : Bytes} (h : text s = .ok bytes)
    (h' : text s' = .ok bytes) : s = s' := by
  have heq := (reads_text s bytes h []).symm.trans (reads_text s' bytes h' [])
  simpa using heq

/-- Different keys have different bytes. -/
theorem keys_nodup_iff {as : List (String × α)} {pairs : List (Bytes × Bytes)}
    (h : List.Forall₂ (WrittenAs encode) as pairs) :
    (as.map (·.1)).Nodup ↔ (pairs.map (·.1)).Nodup := by
  have hunique : Relator.BiUnique fun key keyBytes => text key = .ok keyBytes := by
    refine ⟨fun _ _ _ hkey hkey' => text_injective hkey hkey', fun _ _ _ hkey hkey' => ?_⟩
    simpa using hkey.symm.trans hkey'
  apply List.rel_nodup hunique
  rw [List.forall₂_map_left_iff, List.forall₂_map_right_iff]
  exact h.imp fun _ _ hwritten => hwritten.1

/-- Entries whose keys have increasing bytes are read back in their order. -/
theorem decodeEntries_entries (h : Reads encode decode) {as : List (String × α)}
    {pairs : List (Bytes × Bytes)} (has : List.Forall₂ (WrittenAs encode) as pairs)
    (hsorted : (pairs.map (·.1)).Pairwise (· < ·)) {last : Option Bytes}
    (hlast : ∀ l ∈ last, ∀ k ∈ pairs.map (·.1), l < k) (rest : Bytes) :
    decodeEntries decode pairs.length last (pairs.flatMap (fun (key, a) => key ++ a) ++ rest) =
      .ok (as, rest) := by
  induction has generalizing last with
  | nil => rfl
  | @cons entry pair as pairs hwritten hothers ih =>
    obtain ⟨key, a⟩ := entry
    obtain ⟨keyBytes, valueBytes⟩ := pair
    obtain ⟨hkey, ha⟩ := hwritten
    simp only at hkey ha
    rw [List.map_cons, List.pairwise_cons] at hsorted
    have horder : (last.any fun l => !decide (l < keyBytes)) = false := by
      cases last with
      | none => rfl
      | some l =>
        have hl := hlast l rfl keyBytes (by simp)
        simp [hl]
    have hlast' : ∀ l ∈ some keyBytes, ∀ k ∈ pairs.map (·.1), l < k := by
      rintro l ⟨⟩
      exact hsorted.1
    have hrest := ih hsorted.2 hlast'
    have hread := reads_text _ _ hkey
    have hvalue := h _ _ ha
    simp only [List.length_cons, List.flatMap_cons, List.append_assoc, decodeEntries, hread,
      ok_bind, hkey, horder, hvalue, hrest, Bool.false_eq_true, if_false]

/-- The entries of a map are written by increasing bytes of their keys. -/
theorem pairwise_sortedByKey (pairs : List (Bytes × Bytes)) :
    ((pairs.mergeSort fun a b => decide (a.1 ≤ b.1)).map (·.1)).Pairwise (· ≤ ·) := by
  have htrans : ∀ a b c : Bytes × Bytes, decide (a.1 ≤ b.1) = true →
      decide (b.1 ≤ c.1) = true → decide (a.1 ≤ c.1) = true := by
    intro a b c hab hbc
    rw [decide_eq_true_eq] at hab hbc ⊢
    exact List.le_trans hab hbc
  have htotal : ∀ a b : Bytes × Bytes, (decide (a.1 ≤ b.1) || decide (b.1 ≤ a.1)) = true := by
    intro a b
    simpa using List.le_total a.1 b.1
  rw [List.pairwise_map]
  simpa using List.pairwise_mergeSort htrans htotal pairs

/-- **Maps.** The entries come back by increasing bytes of their keys. -/
theorem decodeMap_map (h : Reads encode decode) {as : List (String × α)} {bytes : Bytes}
    (hbytes : map encode as = .ok bytes) (hkeys : (as.map (·.1)).Nodup) :
    ∃ as', as'.Perm as ∧ ∀ rest, decodeMap decode (bytes ++ rest) = .ok (as', rest) := by
  simp only [map, bind_eq_ok, pure_eq_ok, entries_eq_ok] at hbytes
  obtain ⟨pairs, hpairs, len, hlen, rfl⟩ := hbytes
  generalize hsort : (pairs.mergeSort fun a b => decide (a.1 ≤ b.1)) = sorted at hlen
  have hperm : pairs.Perm sorted := hsort ▸ (List.mergeSort_perm pairs _).symm
  obtain ⟨as', has', hentries⟩ : (Relation.Comp List.Perm (List.Forall₂ (WrittenAs encode))) as
      sorted := by
    rw [← List.forall₂_comp_perm_eq_perm_comp_forall₂]
    exact ⟨pairs, hpairs, hperm⟩
  have hle : (sorted.map (·.1)).Pairwise (· ≤ ·) := hsort ▸ pairwise_sortedByKey pairs
  have hnodup : (sorted.map (·.1)).Nodup :=
    (keys_nodup_iff hentries).1 ((has'.map _).nodup_iff.1 hkeys)
  have hlt : (sorted.map (·.1)).Pairwise (· < ·) := by
    refine (hle.and hnodup).imp fun {a b} ⟨hab, hne⟩ => ?_
    rcases Decidable.em (a < b) with hlt | hge
    · exact hlt
    · exact absurd (List.le_antisymm hab (List.not_lt.1 hge)) hne
  refine ⟨as', has'.symm, fun rest => ?_⟩
  simp only [decodeMap, List.append_assoc, reads_length _ _ hlen, ok_bind]
  exact decodeEntries_entries h hentries hlt (by simp) rest

end Mixins.Wire
