import Mixins.Text.Cut

/-!
# Where a word occurs

A word occurs in a text after each head that can be put before it at the front of the text. The cuts
of a text at a word are told by that: the first occurrence by the shortest head, the last one by the
longest.

* `before_append_word` — the first occurrence does not depend on what follows some occurrence.
* `beforeLast_eq_some_iff` — the text before the last occurrence.
* `OccursOnce` — a word that occurs in one place only.
-/

namespace Mixins.Text

variable {word text head other : List Char}

theorem isSome_dropWord_iff : (dropWord word text).isSome = true ↔ word <+: text := by
  rw [Option.isSome_iff_exists]
  exact exists_congr fun rest => dropWord_eq_some_iff.trans eq_comm

theorem isSome_dropWordEnd_iff : (dropWordEnd word text).isSome = true ↔ word <:+ text := by
  rw [dropWordEnd, Option.isSome_map, isSome_dropWord_iff, List.reverse_prefix]

/-- A place in a text is told by its distance from the front. -/
theorem eq_of_length_eq {word' : List Char} (h : head ++ word <+: text)
    (h' : other ++ word' <+: text) (hlength : head.length = other.length) : head = other :=
  (List.prefix_of_prefix_length_le ((List.prefix_append _ _).trans h)
    ((List.prefix_append _ _).trans h') (Nat.le_of_eq hlength)).eq_of_length hlength

/-! ## The first occurrence -/

theorem before_of_prefix (h : word <+: text) : ∃ rest, before word text = some ([], rest) := by
  cases text with
  | nil => exact ⟨[], by rw [before, if_pos (List.prefix_nil.1 h)]⟩
  | cons c text =>
    obtain ⟨rest, hdrop⟩ := Option.isSome_iff_exists.1 (isSome_dropWord_iff.2 h)
    exact ⟨rest, by rw [before, hdrop]⟩

theorem before_cons {c : Char} (h : ¬ word <+: c :: text) :
    before word (c :: text) = (before word text).map fun (head, rest) => (c :: head, rest) := by
  have hnone : dropWord word (c :: text) = none := by
    rwa [← Option.not_isSome_iff_eq_none, isSome_dropWord_iff]
  rw [before, hnone]

/-- **The first occurrence** in a text does not depend on what follows some occurrence. -/
theorem before_append_word (word text : List Char) : ∃ head, ∀ rest, ∃ rest',
    before word (text ++ word ++ rest) = some (head, rest') := by
  induction text with
  | nil => exact ⟨[], fun rest => before_of_prefix (List.prefix_append word rest)⟩
  | cons c text ih =>
    by_cases hfirst : word <+: c :: text ++ word
    · exact ⟨[], fun rest => before_of_prefix (hfirst.trans (List.prefix_append _ rest))⟩
    · obtain ⟨head, ih⟩ := ih
      refine ⟨c :: head, fun rest => ?_⟩
      obtain ⟨rest', hbefore⟩ := ih rest
      have hlength : word.length ≤ (c :: text ++ word).length := by
        rw [List.length_append]
        exact Nat.le_add_left _ _
      have hlater : ¬ word <+: c :: (text ++ word ++ rest) := fun hprefix =>
        hfirst (List.prefix_of_prefix_length_le hprefix (List.prefix_append _ rest) hlength)
      exact ⟨rest', by rw [List.cons_append, List.cons_append, before_cons hlater, hbefore]; rfl⟩

/-! ## The last occurrence -/

theorem beforeLast_eq_none (h : beforeLast word text = none) : ¬ head ++ word <+: text := by
  induction text generalizing head with
  | nil =>
    unfold beforeLast at h
    rw [List.prefix_nil, List.append_eq_nil_iff]
    simp_all
  | cons c text ih =>
    unfold beforeLast at h
    split at h
    · cases h
    · rename_i hnone
      split at h
      · cases h
      · rename_i hdrop
        rw [isSome_dropWord_iff] at hdrop
        cases head with
        | nil => exact hdrop
        | cons d head =>
          rw [List.cons_append, List.cons_prefix_cons]
          exact fun hprefix => ih hnone hprefix.2

theorem beforeLast_occurs (h : beforeLast word text = some head) : head ++ word <+: text := by
  induction text generalizing head with
  | nil =>
    unfold beforeLast at h
    split at h
    · rename_i hempty
      cases h
      simp [hempty]
    · cases h
  | cons c text ih =>
    unfold beforeLast at h
    split at h
    · rename_i later hlater
      cases h
      exact List.cons_prefix_cons.2 ⟨rfl, ih hlater⟩
    · split at h
      · rename_i hdrop
        cases h
        exact isSome_dropWord_iff.1 hdrop
      · cases h

theorem length_le_beforeLast (h : beforeLast word text = some head)
    (hother : other ++ word <+: text) : other.length ≤ head.length := by
  induction text generalizing head other with
  | nil =>
    rw [List.prefix_nil, List.append_eq_nil_iff] at hother
    simp [hother.1]
  | cons c text ih =>
    cases other with
    | nil => exact Nat.zero_le _
    | cons d other =>
      have hlater := (List.cons_prefix_cons.1 hother).2
      unfold beforeLast at h
      split at h
      · rename_i later heq
        cases h
        exact Nat.succ_le_succ (ih heq hlater)
      · rename_i hnone
        exact absurd hlater (beforeLast_eq_none hnone)

/-- **The text before the last occurrence** is the longest that the word follows. -/
theorem beforeLast_eq_some_iff : beforeLast word text = some head ↔
    head ++ word <+: text ∧ ∀ other, other ++ word <+: text → other.length ≤ head.length := by
  refine ⟨fun h => ⟨beforeLast_occurs h, fun other => length_le_beforeLast h⟩, ?_⟩
  rintro ⟨hoccurs, hlast⟩
  cases hfound : beforeLast word text with
  | none => exact absurd hoccurs (beforeLast_eq_none hfound)
  | some found =>
    have hlength := Nat.le_antisymm (hlast found (beforeLast_occurs hfound))
      (length_le_beforeLast hfound hoccurs)
    rw [eq_of_length_eq (beforeLast_occurs hfound) hoccurs hlength]

/-! ## A single occurrence -/

theorem isInfix_iff_exists_prefix : word <:+: text ↔ ∃ head, head ++ word <+: text := by
  constructor
  · rintro ⟨head, rest, h⟩
    exact ⟨head, rest, h⟩
  · rintro ⟨head, rest, h⟩
    exact ⟨head, rest, h⟩

/-- Whether the word occurs in the text after `head`, and nowhere else. -/
def OccursOnce (word text head : List Char) : Prop :=
  head ++ word <+: text ∧ ∀ other, other ++ word <+: text → other = head

/-- A word cannot begin inside of itself if its first character is nowhere else in it. -/
theorem not_overlaps {c : Char} {body part : List Char} (hc : c ∉ body) (hne : part ≠ [])
    (hshort : part.length < (c :: body).length) : ¬ c :: body <+: part ++ c :: body := by
  intro h
  obtain ⟨d, part, rfl⟩ := List.exists_cons_of_ne_nil hne
  have hbody : body <+: part ++ c :: body := (List.cons_prefix_cons.1 h).2
  have hinside : part ++ [c] <+: part ++ c :: body := by
    rw [List.prefix_append_right_inj]
    exact List.cons_prefix_cons.2 ⟨rfl, List.nil_prefix⟩
  have hlength : (part ++ [c]).length ≤ body.length := by
    simp only [List.length_cons, List.length_append, List.length_nil] at hshort ⊢
    omega
  exact hc ((List.prefix_of_prefix_length_le hinside hbody hlength).subset (by simp))

/-- Of two places where such a word occurs, the first ends before the second begins. -/
theorem append_prefix_of_lt {c : Char} {body : List Char} (hc : c ∉ body)
    (hoccurs : head ++ c :: body <+: text) (hother : other ++ c :: body <+: text)
    (hlt : other.length < head.length) : other ++ c :: body <+: head := by
  have hhead : head <+: text := (List.prefix_append _ _).trans hoccurs
  by_cases hlength : (other ++ c :: body).length ≤ head.length
  · exact List.prefix_of_prefix_length_le hother hhead hlength
  · obtain ⟨part, rfl⟩ := List.prefix_of_prefix_length_le
      ((List.prefix_append other _).trans hother) hhead (Nat.le_of_lt hlt)
    rw [List.length_append, List.length_append] at hlength
    rw [List.length_append] at hlt
    have hpart : part ≠ [] := fun hnil => by simp [hnil] at hlt
    have hlonger : other ++ c :: body <+: other ++ (part ++ c :: body) := by
      rw [List.append_assoc] at hoccurs
      refine List.prefix_of_prefix_length_le hother hoccurs ?_
      simp only [List.length_append]
      omega
    exact absurd ((List.prefix_append_right_inj other).1 hlonger)
      (not_overlaps hc hpart (by omega))

/-- **A word occurs once** if it does not occur before its last occurrence. -/
theorem occursOnce_iff {c : Char} {body : List Char} (hc : c ∉ body) :
    OccursOnce (c :: body) text head ↔
      beforeLast (c :: body) text = some head ∧ ¬ c :: body <:+: head := by
  rw [beforeLast_eq_some_iff, isInfix_iff_exists_prefix]
  constructor
  · rintro ⟨hoccurs, honly⟩
    refine ⟨⟨hoccurs, fun other hother => (honly other hother ▸ Nat.le_refl _)⟩, ?_⟩
    rintro ⟨before, hbefore⟩
    have hsame := honly before ((hbefore.trans (List.prefix_append _ _)).trans hoccurs)
    have hlength := hbefore.length_le
    rw [hsame, List.length_append, List.length_cons] at hlength
    omega
  · rintro ⟨⟨hoccurs, hlast⟩, hnot⟩
    refine ⟨hoccurs, fun other hother => ?_⟩
    rcases Nat.lt_or_eq_of_le (hlast other hother) with hlt | hlength
    · exact absurd ⟨other, append_prefix_of_lt hc hoccurs hother hlt⟩ hnot
    · exact eq_of_length_eq hother hoccurs hlength

end Mixins.Text
