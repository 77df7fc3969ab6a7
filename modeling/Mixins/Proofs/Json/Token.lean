import Mixins.Json.Parser
import Mixins.Json.Printer

/-!
# Texts and numbers are read back

* `text_textChars` — a text comes back from its escapes, whatever follows the closing quotation
  mark. One without characters comes back as such.
* `number_int` — an integer comes back from its digits, if what follows does not go on with a
  number.
-/

namespace Mixins.Json

/-! ## Texts -/

theorem hexValue?_digit {n : Nat} (h : n < 16) : hexValue? (Hex.digit n) = some n := by
  have hall : ∀ k : Fin 16, hexValue? (Hex.digit k.val) = some k.val := by decide
  exact hall ⟨n, h⟩

/-- Where `c` stands for itself. -/
theorem units_cons {c : Char} (hquote : c ≠ '"') (hslash : c ≠ '\\') (hcontrol : ¬ c.toNat < 0x20)
    (rest : List Char) :
    units (c :: rest) = (units rest).map fun (us, rest) => (c.toNat :: us, rest) := by
  rw [units.eq_5 c rest hquote (fun _ _ _ _ _ h _ => hslash h) (fun _ _ h _ => hslash h),
    if_neg hcontrol]
  cases units rest <;> rfl

theorem units_control {c : Char} (h : c.toNat < 0x20) (rest : List Char) :
    units
        ('\\' :: 'u' :: '0' :: '0' :: Hex.digit (c.toNat / 16) :: Hex.digit (c.toNat % 16) :: rest)
      = (units rest).map fun (us, rest) => (c.toNat :: us, rest) := by
  have hzero : hexValue? '0' = some 0 := rfl
  have hhigh := hexValue?_digit (n := c.toNat / 16) (by omega)
  have hlow := hexValue?_digit (n := c.toNat % 16) (by omega)
  have hsum : 16 * (c.toNat / 16) + c.toNat % 16 = c.toNat := by omega
  rw [units.eq_3, hzero, hhigh, hlow]
  simp only [Option.bind_eq_bind, Option.bind_some, Nat.mul_zero, Nat.zero_add, hsum]
  cases units rest <;> rfl

/-- Each character is read back from its escape. -/
theorem units_escaped (c : Char) (rest : List Char) :
    units (escaped c ++ rest) = (units rest).map fun (us, rest) => (c.toNat :: us, rest) := by
  have hnamed : ∀ {mark : Char} {unit : Nat}, mark ≠ 'u' → escape? mark = some unit →
      units ('\\' :: mark :: rest) = (units rest).map fun (us, rest) => (unit :: us, rest) := by
    intro mark unit hmark hescape
    rw [units.eq_4 mark rest (fun _ _ _ _ _ h _ => hmark h), hescape]
    cases units rest <;> rfl
  unfold escaped
  split
  any_goals exact hnamed (by decide) rfl
  split
  · rename_i hcontrol
    exact units_control hcontrol rest
  · rename_i hquote hslash _ _ _ _ _ hcontrol
    exact units_cons hquote hslash hcontrol rest

theorem units_flatMap_escaped (cs rest : List Char) :
    units (cs.flatMap escaped ++ '"' :: rest) = some (cs.map Char.toNat, rest) := by
  induction cs with
  | nil => simp [units]
  | cons c cs ih =>
    rw [List.flatMap_cons, List.append_assoc, units_escaped, ih]
    rfl

/-- No character is half of a pair. -/
theorem not_surrogate (c : Char) : isHigh c.toNat = false ∧ isLow c.toNat = false := by
  have hvalid : c.toNat < 0xd800 ∨ 0xdfff < c.toNat ∧ c.toNat < 0x110000 := c.valid
  simp only [isHigh, isLow, Bool.and_eq_false_iff, decide_eq_false_iff_not]
  omega

theorem ofUnits_map_toNat (cs : List Char) : ofUnits (cs.map Char.toNat) = some cs := by
  induction cs with
  | nil => rfl
  | cons c cs ih =>
    obtain ⟨hhigh, hlow⟩ := not_surrogate c
    rw [List.map_cons, ofUnits.eq_def]
    simp [hhigh, hlow, ih, Char.ofNat_toNat]

/-- A high surrogate that no low one follows stands for no character. -/
theorem text_unpaired (rest : List Char) :
    text ('\\' :: 'u' :: 'd' :: '8' :: '0' :: '0' :: '"' :: rest) = some (none, rest) := by
  have hd : hexValue? 'd' = some 13 := by decide
  have height : hexValue? '8' = some 8 := by decide
  have hzero : hexValue? '0' = some 0 := by decide
  have hunits : units ('\\' :: 'u' :: 'd' :: '8' :: '0' :: '0' :: '"' :: rest)
      = some ([0xd800], rest) := by
    rw [units.eq_3, units.eq_2, hd, height, hzero]
    rfl
  have hnone : ofUnits [0xd800] = none := by decide
  rw [text, hunits]
  simp [hnone]

/-- **A text is read back** once its opening quotation mark has been taken. -/
theorem text_textChars (t : Option String) (rest : List Char) :
    ∃ tail, textChars t ++ rest = '"' :: tail ∧ text tail = some (t, rest) := by
  cases t with
  | some s =>
    have hchars : textChars (some s) ++ rest = '"' :: (s.toList.flatMap escaped ++ ['"'] ++ rest) :=
      rfl
    refine ⟨_, hchars, ?_⟩
    simp [text, units_flatMap_escaped, ofUnits_map_toNat]
  | none =>
    exact ⟨_, rfl, text_unpaired rest⟩

/-! ## Numbers -/

/-- Whether a number in front of the text ends there. -/
def EndsNumber (rest : List Char) : Prop :=
  ∀ c ∈ rest.head?, c.isDigit = false ∧ c ≠ '.' ∧ c ≠ 'e' ∧ c ≠ 'E'

theorem endsNumber_nil : EndsNumber [] := fun _ h => nomatch h

theorem endsNumber_cons {c : Char} {rest : List Char}
    (h : c.isDigit = false ∧ c ≠ '.' ∧ c ≠ 'e' ∧ c ≠ 'E') : EndsNumber (c :: rest) := by
  rintro c' ⟨⟩
  exact h

theorem fraction_of_endsNumber {rest : List Char} (h : EndsNumber rest) :
    fraction rest = some (false, rest) := by
  cases rest with
  | nil => rfl
  | cons c rest =>
    have hpoint : c ≠ '.' := (h c rfl).2.1
    rw [fraction.eq_def]
    split <;> simp_all

theorem exponent_of_endsNumber {rest : List Char} (h : EndsNumber rest) :
    exponent rest = some (false, rest) := by
  cases rest with
  | nil => rfl
  | cons c rest =>
    obtain ⟨-, -, hsmall, hlarge⟩ := h c rfl
    simp [exponent, hsmall, hlarge]

theorem digits_append {ds rest : List Char} (hne : ds ≠ []) (hds : ∀ d ∈ ds, d.isDigit = true)
    (hrest : EndsNumber rest) : digits (ds ++ rest) = some (ds, rest) := by
  have hhead : rest.takeWhile Char.isDigit = [] ∧ rest.dropWhile Char.isDigit = rest := by
    cases rest with
    | nil => exact ⟨rfl, rfl⟩
    | cons c rest => simp [(hrest c rfl).1]
  have htake : (ds ++ rest).takeWhile Char.isDigit = ds := by
    rw [List.takeWhile_append_of_pos hds, hhead.1, List.append_nil]
  have hdrop : (ds ++ rest).dropWhile Char.isDigit = rest := by
    rw [List.dropWhile_append_of_pos hds, hhead.2]
  obtain ⟨d, ds, rfl⟩ := List.exists_cons_of_ne_nil hne
  simp only [digits, htake, hdrop]

/-- A natural number is written with digits, and with at least one. -/
theorem toDigits_eq_cons (n : Nat) :
    ∃ d ds, Nat.toDigits 10 n = d :: ds ∧ ∀ c ∈ d :: ds, c.isDigit = true := by
  obtain ⟨d, ds, hds⟩ := List.exists_cons_of_ne_nil (Nat.toDigits_ne_nil (n := n) (b := 10))
  refine ⟨d, ds, hds, fun c hc => ?_⟩
  rw [← hds] at hc
  exact Nat.isDigit_of_mem_toDigits (by decide) (by decide) hc

/-- No zero stands in front of the digits of a number. -/
theorem toDigits_eq_zero_cons {n : Nat} {rest : List Char} (h : Nat.toDigits 10 n = '0' :: rest) :
    rest = [] := by
  induction n using Nat.strongRecOn generalizing rest with
  | ind n ih =>
    by_cases hn : n < 10
    · rw [Nat.toDigits_of_lt_base hn] at h
      exact (List.cons.inj h).2.symm
    · rw [Nat.toDigits_of_base_le (by decide) (by omega)] at h
      obtain ⟨d, ds, hds, -⟩ := toDigits_eq_cons (n / 10)
      rw [hds, List.cons_append] at h
      obtain ⟨rfl, -⟩ := List.cons.inj h
      have hds' := ih (n / 10) (by omega) hds
      have hzero : Nat.ofDigitChars 10 (Nat.toDigits 10 (n / 10)) 0 = n / 10 :=
        Nat.ofDigitChars_ten_toDigits
      rw [hds, hds'] at hzero
      have : n / 10 = 0 := hzero.symm
      omega

theorem wholePart_toDigits (n : Nat) {rest : List Char} (h : EndsNumber rest) :
    wholePart (Nat.toDigits 10 n ++ rest) = some (Nat.toDigits 10 n, rest) := by
  obtain ⟨d, ds, hn, hdigits⟩ := toDigits_eq_cons n
  rw [hn]
  by_cases hd : d = '0'
  · subst hd
    rw [toDigits_eq_zero_cons hn]
    rfl
  · have hread := digits_append (List.cons_ne_nil d ds) hdigits h
    rw [List.cons_append] at hread ⊢
    rw [wholePart.eq_def]
    split
    · simp_all
    · exact hread

theorem natOf_toDigits (n : Nat) : natOf (Nat.toDigits 10 n) = n := by
  have hread : Nat.ofDigitChars 10 (Nat.toDigits 10 n) 0 = n := Nat.ofDigitChars_ten_toDigits
  rwa [Nat.ofDigitChars_eq_foldl] at hread

/-- The digits of a number, with or without a sign in front, are all that is read. -/
theorem number_signed (n : Nat) {rest : List Char} (h : EndsNumber rest) :
    number ('-' :: (Nat.toDigits 10 n ++ rest))
      = some (if n = 0 then .real else .int (-n), rest) := by
  simp only [number, wholePart_toDigits n h, fraction_of_endsNumber h, exponent_of_endsNumber h,
    natOf_toDigits, Option.bind_eq_bind, Option.bind_some]
  by_cases hn : n = 0 <;> simp [hn]

theorem number_unsigned (n : Nat) {rest : List Char} (h : EndsNumber rest) :
    number (Nat.toDigits 10 n ++ rest) = some (.int n, rest) := by
  have hread := wholePart_toDigits n h
  obtain ⟨d, ds, hds, hdigit⟩ := toDigits_eq_cons n
  have hsign : d ≠ '-' := by
    rintro rfl
    exact absurd (hdigit '-' List.mem_cons_self) (by decide)
  rw [hds, List.cons_append] at hread ⊢
  have hnat : natOf (d :: ds) = n := by rw [← hds, natOf_toDigits]
  simp only [number]
  split
  · rename_i heq
    exact absurd (List.cons.inj heq).1 hsign
  · simp [hread, fraction_of_endsNumber h, exponent_of_endsNumber h, hnat]

theorem toString_ofNat (n : Nat) : (toString (Int.ofNat n)).toList = Nat.toDigits 10 n :=
  Nat.toList_repr

theorem toString_negSucc (n : Nat) :
    (toString (Int.negSucc n)).toList = '-' :: Nat.toDigits 10 (n + 1) := by
  rw [Int.toString_eq_repr, Int.repr_eq_if, if_neg (by omega)]
  simp [Nat.toList_repr]

/-- **An integer is read back** from its digits. -/
theorem number_int (n : Int) {rest : List Char} (h : EndsNumber rest) :
    number ((toString n).toList ++ rest) = some (.int n, rest) := by
  cases n with
  | ofNat n =>
    rw [toString_ofNat, number_unsigned n h]
    rfl
  | negSucc n =>
    rw [toString_negSucc, List.cons_append, number_signed (n + 1) h]
    rfl

/-- An integer begins with a digit or a sign. -/
theorem toString_int_cons (n : Int) :
    ∃ c s, (toString n).toList = c :: s ∧ (c.isDigit = true ∨ c = '-') := by
  cases n with
  | ofNat n =>
    obtain ⟨d, ds, hds, hdigit⟩ := toDigits_eq_cons n
    exact ⟨d, ds, by rw [toString_ofNat, hds], .inl (hdigit d List.mem_cons_self)⟩
  | negSucc n => exact ⟨_, _, toString_negSucc n, .inr rfl⟩

/-- Minus zero is read back as a number that is no integer. -/
theorem number_minusZero {rest : List Char} (h : EndsNumber rest) :
    number ("-0".toList ++ rest) = some (.real, rest) :=
  number_signed 0 h

end Mixins.Json
