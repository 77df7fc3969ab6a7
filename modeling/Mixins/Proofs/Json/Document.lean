import Mixins.Proofs.Json.Token

/-!
# A printed document is read back

Printing and parsing follow the same nesting, so the argument is an induction on the document. What
goes through it is `ReadsBack`: the parser takes the printed document off the front of the text,
leaves what stands behind it, and the fuel for the characters that it takes is enough.

* `nestedInduction` — what passes from the parts of a document to the document holds of every
  document.
* `items_print`, `members_print` — the parts of an array or an object are read back, if each is.
* `parse?_pretty`, `parse?_compact` — every document is what its text spells, printed either way.
-/

namespace Mixins.Json

theorem nestedInduction {motive : Json → Prop} (null : motive .null)
    (bool : ∀ b, motive (.bool b)) (int : ∀ n, motive (.int n)) (real : motive .real)
    (str : ∀ t, motive (.str t))
    (arr : ∀ items, (∀ item ∈ items, motive item) → motive (.arr items))
    (obj : ∀ members, (∀ m ∈ members, motive m.2) → motive (.obj members)) (j : Json) :
    motive j := by
  -- The motives are for a document, its items, its members and one of them.
  refine @Json.rec motive (fun items => ∀ item ∈ items, motive item)
    (fun members => ∀ m ∈ members, motive m.2) (fun m => motive m.2)
    null bool int real str arr obj ?noItem ?item ?noMember ?member ?value j
  case noItem | noMember => exact fun _ h => nomatch h
  case item | member => exact fun _ _ hfirst hrest => List.forall_mem_cons.2 ⟨hfirst, hrest⟩
  case value => exact fun _ _ hvalue => hvalue

/-! ## Blanks -/

def Blanks (s : List Char) : Prop := ∀ c ∈ s, isBlank c = true

theorem skipBlank_append {blanks : List Char} (h : Blanks blanks) (s : List Char) :
    skipBlank (blanks ++ s) = skipBlank s :=
  List.dropWhile_append_of_pos h

theorem skipBlank_cons {c : Char} (h : isBlank c = false) (s : List Char) :
    skipBlank (c :: s) = c :: s := by
  simp [skipBlank, h]

theorem value_append {blanks : List Char} (h : Blanks blanks) (fuel : Nat) (s : List Char) :
    value fuel (blanks ++ s) = value fuel s := by
  cases fuel with
  | zero => rfl
  | succ fuel => rw [value.eq_2, value.eq_2, skipBlank_append h]

theorem items_append {blanks : List Char} (h : Blanks blanks) (fuel : Nat) (s : List Char) :
    items fuel (blanks ++ s) = items fuel s := by
  cases fuel with
  | zero => rfl
  | succ fuel => rw [items.eq_2, items.eq_2, value_append h]

theorem members_append {blanks : List Char} (h : Blanks blanks) (fuel : Nat) (s : List Char) :
    members fuel (blanks ++ s) = members fuel s := by
  cases fuel with
  | zero => rfl
  | succ fuel => rw [members.eq_2, members.eq_2, skipBlank_append h]

/-- No blank goes on with a number. -/
theorem endsNumber_append {blanks : List Char} (h : Blanks blanks) {s : List Char}
    (hs : EndsNumber s) : EndsNumber (blanks ++ s) := by
  cases blanks with
  | nil => exact hs
  | cons c blanks =>
    have hc : isBlank c = true := h c List.mem_cons_self
    simp only [isBlank, Bool.or_eq_true, decide_eq_true_eq] at hc
    refine endsNumber_cons ?_
    obtain ((rfl | rfl) | rfl) | rfl := hc <;> decide

/-- Only blanks stand between the parts of a document. -/
structure Spacing.Blank (spacing : Spacing) : Prop where
  lineBreak : ∀ depth, Blanks (spacing.lineBreak depth)
  afterColon : Blanks spacing.afterColon

theorem Spacing.lines_blank : Spacing.lines.Blank where
  lineBreak depth := by
    rintro c (_ | ⟨_, hc⟩)
    · rfl
    · rw [List.eq_of_mem_replicate hc]
      rfl
  afterColon := by
    rintro c (_ | ⟨_, ⟨⟩⟩)
    rfl

theorem Spacing.none_blank : Spacing.none.Blank where
  lineBreak _ := fun _ hc => nomatch hc
  afterColon := fun _ hc => nomatch hc

/-! ## Where a document begins -/

/-- Whether a document may begin with `c`, also behind an opening bracket. -/
def Opens (c : Char) : Prop := isBlank c = false ∧ c ≠ ']'

instance : DecidablePred Opens := fun c =>
  inferInstanceAs (Decidable (isBlank c = false ∧ c ≠ ']'))

/-- The characters with which a document that is not a number may begin. -/
def openers : List Char := ['[', '\x7b', '"', 'n', 't', 'f']

theorem numeral_opens {c : Char} (h : c.isDigit = true ∨ c = '-') : Opens c ∧ c ∉ openers := by
  obtain h | rfl := h
  · have hne : ∀ mark : Char, mark.isDigit = false → c ≠ mark := by
      rintro mark hmark rfl
      exact absurd h (by simp [hmark])
    simp [Opens, isBlank, openers, hne]
  · exact ⟨⟨rfl, by decide⟩, by decide⟩

/-- A printed document begins with a character of its own. -/
theorem print_eq_cons (spacing : Spacing) (depth : Nat) (rest : List Char) (j : Json) :
    ∃ c s, j.print spacing depth rest = c :: s ∧ Opens c := by
  have hmarks : ∀ c ∈ openers, Opens c := by simp [openers, Opens, isBlank]
  cases j with
  | null => exact ⟨_, _, rfl, hmarks 'n' (by decide)⟩
  | bool b => cases b <;> exact ⟨_, _, rfl, hmarks _ (by decide)⟩
  | int n =>
    obtain ⟨c, s, hn, hc⟩ := toString_int_cons n
    exact ⟨c, s ++ rest, by rw [print, hn, List.cons_append], (numeral_opens hc).1⟩
  | real => exact ⟨_, _, rfl, (numeral_opens (.inr rfl)).1⟩
  | str t =>
    obtain ⟨tail, ht, -⟩ := text_textChars t rest
    exact ⟨_, tail, by rw [print, ht], hmarks _ (by decide)⟩
  | arr items => cases items <;> exact ⟨_, _, rfl, hmarks _ (by decide)⟩
  | obj members => cases members <;> exact ⟨_, _, rfl, hmarks _ (by decide)⟩

/-! ## How long a printed document is -/

theorem length_le_printItems (spacing : Spacing) (depth : Nat) (items : List Json)
    (h : ∀ item ∈ items, ∀ depth rest, rest.length < (item.print spacing depth rest).length)
    (rest : List Char) : rest.length ≤ (printItems spacing depth rest items).length := by
  induction items with
  | nil => exact Nat.le_refl _
  | cons item items ih =>
    have hrest := ih fun item hitem => h item (List.mem_cons_of_mem _ hitem)
    have hitem := h item List.mem_cons_self depth (printItems spacing depth rest items)
    simp only [printItems, List.length_cons, List.length_append]
    omega

theorem length_le_printMembers (spacing : Spacing) (depth : Nat)
    (members : List (Option String × Json))
    (h : ∀ m ∈ members, ∀ depth rest, rest.length < (m.2.print spacing depth rest).length)
    (rest : List Char) : rest.length ≤ (printMembers spacing depth rest members).length := by
  induction members with
  | nil => exact Nat.le_refl _
  | cons m members ih =>
    have hrest := ih fun m hm => h m (List.mem_cons_of_mem _ hm)
    have hm := h m List.mem_cons_self depth (printMembers spacing depth rest members)
    simp only [printMembers, List.length_cons, List.length_append]
    omega

theorem length_lt_append_left {w : List Char} (hw : w ≠ []) (rest : List Char) :
    rest.length < (w ++ rest).length := by
  rw [List.length_append]
  exact Nat.lt_add_of_pos_left (List.length_pos_iff.2 hw)

/-- Every document takes at least one character. -/
theorem length_lt_print (spacing : Spacing) (j : Json) :
    ∀ depth rest, rest.length < (j.print spacing depth rest).length := by
  induction j using nestedInduction <;> intro depth rest
  case null => exact length_lt_append_left (w := "null".toList) (by decide) rest
  case bool b =>
    cases b with
    | true => exact length_lt_append_left (w := "true".toList) (by decide) rest
    | false => exact length_lt_append_left (w := "false".toList) (by decide) rest
  case real => exact length_lt_append_left (w := "-0".toList) (by decide) rest
  case int n =>
    obtain ⟨c, s, hn, -⟩ := toString_int_cons n
    simp only [print, hn, List.length_append, List.length_cons]
    omega
  case str t =>
    have hquote : textChars t ≠ [] := by cases t <;> exact List.cons_ne_nil _ _
    rw [print]
    exact length_lt_append_left hquote rest
  case arr items ih =>
    cases items with
    | nil => simp only [print, List.length_cons]; omega
    | cons item items =>
      rw [print]
      generalize hclose : spacing.lineBreak depth ++ ']' :: rest = close
      have hrest : rest.length < close.length := by simp [← hclose]; omega
      have hitems := length_le_printItems spacing (depth + 1) items
        (fun item hitem => ih item (List.mem_cons_of_mem _ hitem)) close
      have hitem := ih item List.mem_cons_self (depth + 1)
        (printItems spacing (depth + 1) close items)
      simp only [List.length_append, List.length_cons]
      omega
  case obj members ih =>
    cases members with
    | nil => simp only [print, List.length_cons]; omega
    | cons m members =>
      rw [print]
      generalize hclose : spacing.lineBreak depth ++ '\x7d' :: rest = close
      have hrest : rest.length < close.length := by simp [← hclose]; omega
      have hmembers := length_le_printMembers spacing (depth + 1) members
        (fun m hm => ih m (List.mem_cons_of_mem _ hm)) close
      have hm := ih m List.mem_cons_self (depth + 1)
        (printMembers spacing (depth + 1) close members)
      simp only [List.length_append, List.length_cons]
      omega

/-! ## Reading back -/

/-- Whether the document is taken off the front of the text and nothing more, given fuel for each of
its characters twice. -/
def ReadsBack (spacing : Spacing) (j : Json) : Prop :=
  ∀ (depth fuel : Nat) (rest : List Char), EndsNumber rest →
    2 * (j.print spacing depth rest).length ≤ fuel + 2 * rest.length →
    value fuel (j.print spacing depth rest) = some (j, rest)

variable {spacing : Spacing}

theorem endsNumber_printItems {close : List Char} (hclose : EndsNumber close) (depth : Nat)
    (items : List Json) : EndsNumber (printItems spacing depth close items) := by
  cases items with
  | nil => exact hclose
  | cons item items => exact endsNumber_cons (by decide)

theorem endsNumber_printMembers {close : List Char} (hclose : EndsNumber close) (depth : Nat)
    (members : List (Option String × Json)) :
    EndsNumber (printMembers spacing depth close members) := by
  cases members with
  | nil => exact hclose
  | cons m members => exact endsNumber_cons (by decide)

/-! One step of the parser: the last item or member, and one with another behind it. -/

theorem items_last {fuel : Nat} {s blanks rest : List Char} {j : Json} (hblanks : Blanks blanks)
    (hvalue : value fuel s = some (j, blanks ++ ']' :: rest)) :
    items (fuel + 1) s = some ([j], rest) := by
  rw [items.eq_2, hvalue]
  simp only [Option.bind_eq_bind, Option.bind_some, skipBlank_append hblanks]
  rfl

theorem items_next {fuel : Nat} {s blanks tail rest : List Char} {j : Json} {js : List Json}
    (hblanks : Blanks blanks) (hvalue : value fuel s = some (j, ',' :: (blanks ++ tail)))
    (hitems : items fuel tail = some (js, rest)) :
    items (fuel + 1) s = some (j :: js, rest) := by
  rw [items.eq_2, hvalue]
  simp only [Option.bind_eq_bind, Option.bind_some, skipBlank_cons (c := ',') rfl,
    items_append hblanks, hitems]

theorem members_last {fuel : Nat} {s gap blanks rest : List Char} {j : Json} (hgap : Blanks gap)
    (hblanks : Blanks blanks) (key : Option String)
    (hvalue : value fuel s = some (j, blanks ++ '\x7d' :: rest)) :
    members (fuel + 1) (textChars key ++ ':' :: (gap ++ s)) = some ([(key, j)], rest) := by
  obtain ⟨tail, htext, hkey⟩ := text_textChars key (':' :: (gap ++ s))
  rw [htext, members.eq_2, skipBlank_cons (c := '"') rfl]
  simp only [hkey, Option.bind_eq_bind, Option.bind_some, skipBlank_cons (c := ':') rfl,
    value_append hgap, hvalue, skipBlank_append hblanks]
  rfl

theorem members_next {fuel : Nat} {s gap blanks tail rest : List Char} {j : Json}
    {ms : List (Option String × Json)} (hgap : Blanks gap) (hblanks : Blanks blanks)
    (key : Option String) (hvalue : value fuel s = some (j, ',' :: (blanks ++ tail)))
    (hmembers : members fuel tail = some (ms, rest)) :
    members (fuel + 1) (textChars key ++ ':' :: (gap ++ s)) = some ((key, j) :: ms, rest) := by
  obtain ⟨tail', htext, hkey⟩ := text_textChars key (':' :: (gap ++ s))
  rw [htext, members.eq_2, skipBlank_cons (c := '"') rfl]
  simp only [hkey, Option.bind_eq_bind, Option.bind_some, skipBlank_cons (c := ':') rfl,
    value_append hgap, hvalue, skipBlank_cons (c := ',') rfl, members_append hblanks, hmembers]

/-- The items of an array are read back, if each of them is. -/
theorem items_print (hspacing : spacing.Blank) {blanks : List Char} (hblanks : Blanks blanks)
    {depth : Nat} {rest : List Char} {others : List Json} :
    ∀ (fuel : Nat) {item : Json}, (∀ j ∈ item :: others, ReadsBack spacing j) →
      2 * (item.print spacing depth
        (printItems spacing depth (blanks ++ ']' :: rest) others)).length
        ≤ fuel + 2 * rest.length →
      items fuel (item.print spacing depth
        (printItems spacing depth (blanks ++ ']' :: rest) others))
        = some (item :: others, rest) := by
  have hclose : EndsNumber (blanks ++ ']' :: rest) :=
    endsNumber_append hblanks (endsNumber_cons (by decide))
  induction others with
  | nil =>
    intro fuel item hread hfuel
    have hitem := length_lt_print spacing item depth (blanks ++ ']' :: rest)
    simp only [printItems, List.length_append, List.length_cons] at hfuel hitem
    obtain ⟨fuel, rfl⟩ : ∃ k, fuel = k + 1 := ⟨fuel - 1, by omega⟩
    have hvalue := hread item List.mem_cons_self depth fuel _ hclose
      (by simp only [List.length_append, List.length_cons]; omega)
    exact items_last hblanks hvalue
  | cons next others ih =>
    intro fuel item hread hfuel
    have hrest := length_le_printItems spacing depth others
      (fun item _ => length_lt_print spacing item) (blanks ++ ']' :: rest)
    have hnext := length_lt_print spacing next depth
      (printItems spacing depth (blanks ++ ']' :: rest) others)
    have hitem := length_lt_print spacing item depth
      (printItems spacing depth (blanks ++ ']' :: rest) (next :: others))
    simp only [printItems, List.length_append, List.length_cons] at hrest hnext hitem hfuel
    obtain ⟨fuel, rfl⟩ : ∃ k, fuel = k + 1 := ⟨fuel - 1, by omega⟩
    have hvalue := hread item List.mem_cons_self depth fuel
      (printItems spacing depth (blanks ++ ']' :: rest) (next :: others))
      (endsNumber_printItems hclose depth (next :: others))
      (by simp only [printItems, List.length_append, List.length_cons]; omega)
    have hitems := ih fuel (fun j hj => hread j (List.mem_cons_of_mem _ hj)) (by omega)
    exact items_next (hspacing.lineBreak depth) hvalue hitems

/-- The members of an object are read back, if the value of each is. -/
theorem members_print (hspacing : spacing.Blank) {blanks : List Char} (hblanks : Blanks blanks)
    {depth : Nat} {rest : List Char} {others : List (Option String × Json)} :
    ∀ (fuel : Nat) {key : Option String} {j : Json},
      (∀ m ∈ (key, j) :: others, ReadsBack spacing m.2) →
      2 * (j.print spacing depth
        (printMembers spacing depth (blanks ++ '\x7d' :: rest) others)).length
        ≤ fuel + 2 * rest.length →
      members fuel (textChars key ++ ':' :: (spacing.afterColon ++ j.print spacing depth
        (printMembers spacing depth (blanks ++ '\x7d' :: rest) others)))
        = some ((key, j) :: others, rest) := by
  have hclose : EndsNumber (blanks ++ '\x7d' :: rest) :=
    endsNumber_append hblanks (endsNumber_cons (by decide))
  induction others with
  | nil =>
    intro fuel key j hread hfuel
    have hj := length_lt_print spacing j depth (blanks ++ '\x7d' :: rest)
    simp only [printMembers, List.length_append, List.length_cons] at hfuel hj
    obtain ⟨fuel, rfl⟩ : ∃ k, fuel = k + 1 := ⟨fuel - 1, by omega⟩
    have hvalue := hread (key, j) List.mem_cons_self depth fuel _ hclose
      (by simp only [List.length_append, List.length_cons]; omega)
    exact members_last hspacing.afterColon hblanks key hvalue
  | cons next others ih =>
    intro fuel key j hread hfuel
    have hrest := length_le_printMembers spacing depth others
      (fun m _ => length_lt_print spacing m.2) (blanks ++ '\x7d' :: rest)
    have hnext := length_lt_print spacing next.2 depth
      (printMembers spacing depth (blanks ++ '\x7d' :: rest) others)
    have hj := length_lt_print spacing j depth
      (printMembers spacing depth (blanks ++ '\x7d' :: rest) (next :: others))
    simp only [printMembers, List.length_append, List.length_cons] at hrest hnext hj hfuel
    obtain ⟨fuel, rfl⟩ : ∃ k, fuel = k + 1 := ⟨fuel - 1, by omega⟩
    have hvalue := hread (key, j) List.mem_cons_self depth fuel
      (printMembers spacing depth (blanks ++ '\x7d' :: rest) (next :: others))
      (endsNumber_printMembers hclose depth (next :: others))
      (by simp only [printMembers, List.length_append, List.length_cons]; omega)
    have hmembers := ih fuel (fun m hm => hread m (List.mem_cons_of_mem _ hm)) (by omega)
    exact members_next hspacing.afterColon (hspacing.lineBreak depth) key hvalue hmembers

/-- What begins with none of the marks and words is read as a number. -/
theorem value_numeral {c : Char} (hblank : isBlank c = false) (hc : c ∉ openers) (fuel : Nat)
    (s : List Char) : value (fuel + 1) (c :: s) = number (c :: s) := by
  have hne : ∀ mark ∈ openers, c ≠ mark := fun mark hmark heq => hc (heq ▸ hmark)
  have hword : ∀ mark ∈ openers, ∀ word, Text.dropWord (mark :: word) (c :: s) = none :=
    fun mark hmark word => if_neg (hne mark hmark).symm
  have hnull : "null".toList = 'n' :: ['u', 'l', 'l'] := rfl
  have htrue : "true".toList = 't' :: ['r', 'u', 'e'] := rfl
  have hfalse : "false".toList = 'f' :: ['a', 'l', 's', 'e'] := rfl
  rw [value.eq_2, skipBlank_cons hblank, hnull, htrue, hfalse]
  split
  · rename_i heq
    exact absurd (List.cons.inj heq).1 (hne '[' (by decide))
  · rename_i heq
    exact absurd (List.cons.inj heq).1 (hne '\x7b' (by decide))
  · rename_i heq
    exact absurd (List.cons.inj heq).1 (hne '"' (by decide))
  · rw [hword 'n' (by decide), hword 't' (by decide), hword 'f' (by decide)]

/-- What begins as an item is not the end of an array. -/
theorem value_arr {fuel : Nat} {blanks s rest : List Char} {items : List Json}
    (hblanks : Blanks blanks) (hs : ∃ c tail, s = c :: tail ∧ Opens c)
    (hitems : Json.items fuel s = some (items, rest)) :
    value (fuel + 1) ('[' :: (blanks ++ s)) = some (.arr items, rest) := by
  obtain ⟨c, tail, rfl, hblank, hclose⟩ := hs
  rw [value.eq_2, skipBlank_cons (c := '[') rfl]
  simp only [skipBlank_append hblanks, skipBlank_cons hblank]
  split
  · rename_i heq
    exact absurd (List.cons.inj heq).1 hclose
  · rw [hitems]
    rfl

theorem value_obj {fuel : Nat} {blanks s rest : List Char} {members : List (Option String × Json)}
    (hblanks : Blanks blanks) (key : Option String)
    (hmembers : Json.members fuel (textChars key ++ s) = some (members, rest)) :
    value (fuel + 1) ('\x7b' :: (blanks ++ (textChars key ++ s))) = some (.obj members, rest) := by
  obtain ⟨tail, htext, -⟩ := text_textChars key s
  rw [htext] at hmembers ⊢
  rw [value.eq_2, skipBlank_cons (c := '\x7b') rfl]
  simp only [skipBlank_append hblanks, skipBlank_cons (c := '"') rfl]
  split
  · rename_i heq
    exact absurd (List.cons.inj heq).1 (by decide)
  · rw [hmembers]
    rfl

/-- A document is not printed as nothing, so some fuel is there. -/
theorem readsBack_of_succ {j : Json}
    (h : ∀ (depth fuel : Nat) (rest : List Char), EndsNumber rest →
      2 * (j.print spacing depth rest).length ≤ fuel + 1 + 2 * rest.length →
      value (fuel + 1) (j.print spacing depth rest) = some (j, rest)) : ReadsBack spacing j := by
  intro depth fuel rest hrest hfuel
  have hlength := length_lt_print spacing j depth rest
  obtain ⟨fuel, rfl⟩ : ∃ k, fuel = k + 1 := ⟨fuel - 1, by omega⟩
  exact h depth fuel rest hrest hfuel

/-- **A printed document is read back**, whatever stands behind it. -/
theorem readsBack (hspacing : spacing.Blank) (j : Json) : ReadsBack spacing j := by
  induction j using nestedInduction
  all_goals refine readsBack_of_succ fun depth fuel rest hrest hfuel => ?_
  case null => rfl
  case bool b => cases b <;> rfl
  case int n =>
    obtain ⟨c, s, hn, hc⟩ := toString_int_cons n
    obtain ⟨hopens, hmark⟩ := numeral_opens hc
    have hnumber := number_int n hrest
    rw [print]
    rw [hn, List.cons_append] at hnumber ⊢
    rw [value_numeral hopens.1 hmark, hnumber]
  case real =>
    exact (value_numeral rfl (by decide) fuel _).trans (number_minusZero hrest)
  case str t =>
    obtain ⟨tail, htext, ht⟩ := text_textChars t rest
    rw [print, htext, value.eq_2, skipBlank_cons (c := '"') rfl]
    simp only [ht]
    rfl
  case arr items ih =>
    cases items with
    | nil => rfl
    | cons item others =>
      simp only [print, List.length_append, List.length_cons] at hfuel ⊢
      exact value_arr (hspacing.lineBreak (depth + 1)) (print_eq_cons ..)
        (items_print hspacing (hspacing.lineBreak depth) fuel ih (by omega))
  case obj members ih =>
    cases members with
    | nil => rfl
    | cons m others =>
      simp only [print, List.length_append, List.length_cons] at hfuel ⊢
      exact value_obj (hspacing.lineBreak (depth + 1)) m.1
        (members_print hspacing (hspacing.lineBreak depth) fuel ih (by omega))

/-- A document that is all of a text is what the text spells. -/
theorem parse?_print (hspacing : spacing.Blank) (j : Json) :
    parse? (String.ofList (j.print spacing 0 [])) = some j := by
  have hread := readsBack hspacing j 0
    (2 * (String.ofList (j.print spacing 0 [])).length + 2) [] endsNumber_nil
    (by simp only [String.length_ofList, List.length_nil]; omega)
  rw [parse?, String.toList_ofList, hread]
  rfl

/-- **Every document is what its printed form spells.** -/
theorem parse?_pretty (j : Json) : parse? j.pretty = some j := parse?_print Spacing.lines_blank j

theorem parse?_compact (j : Json) : parse? j.compact = some j := parse?_print Spacing.none_blank j

end Mixins.Json
