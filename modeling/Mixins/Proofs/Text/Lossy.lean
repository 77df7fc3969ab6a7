import Mixins.Text.Utf8

/-!
# Reading any bytes as text

A byte below 0x80 is a character by itself and goes on with none. So lossy reading can be cut before
such a byte: what stands before it is read alike whatever follows, also where it breaks off in the
middle of a character.

* `decodeLossyChars_append` — the cut before a byte that is a character by itself.
* `decodeLossyChars_singleBytes` — bytes that all are.
-/

namespace Mixins.Utf8

variable {b : UInt8}

theorem secondFits_of_lt (first : UInt8) (hb : b < 0x80) : secondFits first b = false := by
  have hlow : ∀ low : UInt8, 0x80 ≤ low → decide (low ≤ b) = false :=
    fun low hlow => decide_eq_false (UInt8.not_le.2 (UInt8.lt_of_lt_of_le hb hlow))
  unfold secondFits
  simp only [Bool.and_eq_false_iff]
  refine .inl (hlow _ ?_)
  split
  · decide
  · split <;> decide

theorem continues_of_lt (hb : b < 0x80) : continues b = false := by
  unfold continues
  rw [decide_eq_false (UInt8.not_le.2 hb), Bool.false_and]

theorem width_of_lt (hb : b < 0x80) : width b = 1 := by
  rw [width, if_pos hb]

/-- Bytes that go on with a character end before one that does not. -/
theorem takeWhile_continues_append (hb : b < 0x80) (count : Nat) (bytes rest : Bytes) :
    ((bytes ++ b :: rest).take count).takeWhile continues =
      (bytes.take count).takeWhile continues := by
  induction bytes generalizing count with
  | nil => cases count <;> simp [continues_of_lt hb]
  | cons c bytes ih =>
    cases count with
    | zero => rfl
    | succ count =>
      rw [List.cons_append, List.take_succ_cons, List.take_succ_cons, List.takeWhile_cons,
        List.takeWhile_cons, ih]

theorem following_append (hb : b < 0x80) (first : UInt8) (count : Nat) (bytes rest : Bytes) :
    following first count (bytes ++ b :: rest) = following first count bytes := by
  cases count with
  | zero => rfl
  | succ count =>
    cases bytes with
    | nil => simp [following, secondFits_of_lt first hb]
    | cons second bytes =>
      simp only [List.cons_append, following, takeWhile_continues_append hb]

theorem following_le_length (first : UInt8) (count : Nat) (bytes : Bytes) :
    following first count bytes ≤ bytes.length := by
  cases count with
  | zero => exact Nat.zero_le _
  | succ count =>
    cases bytes with
    | nil => exact Nat.zero_le _
    | cons second bytes =>
      have htake := (bytes.take count).takeWhile_sublist continues |>.length_le
      have hlength := List.length_take_le' count bytes
      simp only [following, List.length_cons]
      split <;> omega

theorem decodeLossyChars_of_none {first : UInt8} (bytes : Bytes) (h : width first = 0) :
    decodeLossyChars (first :: bytes) = '\ufffd' :: decodeLossyChars bytes := by
  rw [decodeLossyChars, if_pos h]

theorem decodeLossyChars_of_whole {first : UInt8} {bytes : Bytes} (h : width first ≠ 0)
    (hwhole : following first (width first - 1) bytes = width first - 1) :
    decodeLossyChars (first :: bytes) = assemble first (bytes.take (width first - 1)) ::
      decodeLossyChars (bytes.drop (width first - 1)) := by
  rw [decodeLossyChars, if_neg h, if_pos hwhole]

theorem decodeLossyChars_of_broken {first : UInt8} {bytes : Bytes} (h : width first ≠ 0)
    (hbroken : following first (width first - 1) bytes ≠ width first - 1) :
    decodeLossyChars (first :: bytes) = '\ufffd' ::
      decodeLossyChars (bytes.drop (following first (width first - 1) bytes)) := by
  rw [decodeLossyChars, if_neg h, if_neg hbroken]

/-- **What stands before a byte that is a character by itself** is read alike whatever follows. -/
theorem decodeLossyChars_append (hb : b < 0x80) (head rest : Bytes) :
    decodeLossyChars (head ++ b :: rest) =
      decodeLossyChars head ++ decodeLossyChars (b :: rest) := by
  induction head using decodeLossyChars.induct with
  | case1 => rw [List.nil_append, decodeLossyChars.eq_1, List.nil_append]
  | case2 first bytes h ih =>
    rw [List.cons_append, decodeLossyChars_of_none _ h, decodeLossyChars_of_none _ h, ih,
      List.cons_append]
  | case3 first bytes need got h hwhole ih =>
    have hsame := following_append hb first need bytes rest
    have hneed : need ≤ bytes.length := hwhole ▸ following_le_length first need bytes
    rw [List.cons_append, decodeLossyChars_of_whole h (hsame.trans hwhole),
      decodeLossyChars_of_whole h hwhole, List.take_append_of_le_length hneed,
      List.drop_append_of_le_length hneed, ih, List.cons_append]
  | case4 first bytes need got h hbroken ih =>
    have hsame : following first need (bytes ++ b :: rest) = got :=
      following_append hb first need bytes rest
    have hgot : got ≤ bytes.length := following_le_length first need bytes
    rw [List.cons_append, decodeLossyChars_of_broken h (by rwa [hsame]), hsame,
      decodeLossyChars_of_broken h hbroken, List.drop_append_of_le_length hgot, ih,
      List.cons_append]

theorem decodeLossyChars_cons (hb : b < 0x80) (rest : Bytes) :
    decodeLossyChars (b :: rest) = Char.ofNat b.toNat :: decodeLossyChars rest := by
  rw [decodeLossyChars]
  simp [width_of_lt hb, following, assemble]

/-- The bytes of characters that have one byte each. -/
def singleBytes (chars : List Char) : Bytes := chars.map fun c => UInt8.ofNat c.toNat

theorem toNat_ofNat_of_lt {c : Char} (h : c.toNat < 0x80) :
    (UInt8.ofNat c.toNat).toNat = c.toNat := by
  rw [UInt8.toNat_ofNat']
  exact Nat.mod_eq_of_lt (by omega)

theorem ofNat_toNat_lt {c : Char} (h : c.toNat < 0x80) : UInt8.ofNat c.toNat < 0x80 := by
  rw [UInt8.lt_iff_toNat_lt, toNat_ofNat_of_lt h]
  exact h

theorem decodeLossyChars_singleBytes {chars : List Char} (h : ∀ c ∈ chars, c.toNat < 0x80)
    (rest : Bytes) :
    decodeLossyChars (singleBytes chars ++ rest) = chars ++ decodeLossyChars rest := by
  induction chars with
  | nil => rfl
  | cons c chars ih =>
    obtain ⟨hc, hchars⟩ := List.forall_mem_cons.1 h
    rw [singleBytes, List.map_cons, List.cons_append, decodeLossyChars_cons (ofNat_toNat_lt hc),
      toNat_ofNat_of_lt hc, Char.ofNat_toNat, List.cons_append]
    exact congrArg _ (ih hchars)

/-- **Characters of one byte each** stand for themselves, whatever stands around them. -/
theorem decodeLossyChars_append_singleBytes {chars : List Char} (h : ∀ c ∈ chars, c.toNat < 0x80)
    (hne : chars ≠ []) (head rest : Bytes) :
    decodeLossyChars (head ++ singleBytes chars ++ rest) =
      decodeLossyChars head ++ chars ++ decodeLossyChars rest := by
  obtain ⟨c, chars, rfl⟩ := List.exists_cons_of_ne_nil hne
  have hlow := ofNat_toNat_lt (h c List.mem_cons_self)
  have hcut := decodeLossyChars_append hlow head (singleBytes chars ++ rest)
  have hown := decodeLossyChars_singleBytes h rest
  rw [singleBytes, List.map_cons, List.cons_append] at hown
  rw [List.append_assoc, singleBytes, List.map_cons, List.cons_append, ← singleBytes, hcut]
  exact (congrArg _ hown).trans (List.append_assoc _ _ _).symm

end Mixins.Utf8
