import Mixins.Proofs.Slot

/-!
# Changing a type in its place

The type at the end of a path is changed where it is. Nothing else in the type around it changes,
and if the change only extends the one, the other is extended as well.

* `descendant?_modifyDescendant?` — the changed type is found where it was.
* `Extends.modifyDescendant?` — the type around an extended type is extended.
* `declaration_modifyDescendant?` — what does not lie below the path stays.
* `descendant?_modifyDescendant?_of_apart` — what lies neither below nor around it stays whole.
* `Substituted.modifyDescendant?` — no other type is touched, be it of the same name.
-/

namespace Mixins.TypeDef

open Merge (findIdx?_of_split split_or_new)

variable {t t' : TypeDef} {f : TypeDef → TypeDef} {chain : List String}

theorem nestedType?_of_split {inner : String} {before after : List TypeDef} {n : TypeDef}
    (split : t.nested = before ++ n :: after) (first : ∀ x ∈ before, x.innerName ≠ inner)
    (same : n.innerName = inner) : t.nestedType? inner = some n := by
  have hbefore : before.find? (·.innerName == inner) = none :=
    List.find?_eq_none.2 fun x hx => by simpa using first x hx
  rw [nestedType?, split, List.find?_append, hbefore]
  simp [same]

theorem descendant?_of_split {inner : String} {before after : List TypeDef} {n : TypeDef}
    (split : t.nested = before ++ n :: after) (first : ∀ x ∈ before, x.innerName ≠ inner)
    (same : n.innerName = inner) : t.descendant? (inner :: chain) = n.descendant? chain := by
  rw [descendant?, nestedType?_of_split split first same, Option.bind_some]

/-- **What is found in the type when a nested one is replaced** by one of the same name. -/
theorem descendant?_replaced {inner : String} {before after : List TypeDef} {n n' : TypeDef}
    (split : t.nested = before ++ n :: after) (first : ∀ x ∈ before, x.innerName ≠ inner)
    (same : n.innerName = inner) (hname : n'.name = n.name) (segment : String)
    (path : List String) :
    descendant? { t with nested := before ++ n' :: after } (segment :: path) =
      if segment = inner then n'.descendant? path else t.descendant? (segment :: path) := by
  have same' : n'.innerName = inner := by
    rw [innerName, hname]
    exact same
  split_ifs with hsegment
  · subst hsegment
    exact descendant?_of_split rfl first same'
  · have hother : nestedType? { t with nested := before ++ n' :: after } segment =
        t.nestedType? segment := by
      simp [nestedType?, split, List.find?_append, same, same',
        beq_false_of_ne (Ne.symm hsegment)]
    simp only [descendant?, hother]

theorem modifyDescendant?_of_split {inner : String} {before after : List TypeDef} {n : TypeDef}
    (split : t.nested = before ++ n :: after) (first : ∀ x ∈ before, x.innerName ≠ inner)
    (same : n.innerName = inner) :
    t.modifyDescendant? f (inner :: chain) =
      (n.modifyDescendant? f chain).map fun n' => { t with nested := before ++ n' :: after } := by
  have hget : (before ++ n :: after)[before.length]? = some n := by simp
  rw [modifyDescendant?, split, findIdx?_of_split first same, Option.bind_some, hget,
    Option.bind_some]
  simp

/-- What is changed in a nested type, or that there is none. -/
theorem modifyDescendant?_cons_eq_some {inner : String}
    (h : t.modifyDescendant? f (inner :: chain) = some t') :
    ∃ before n n' after, t.nested = before ++ n :: after ∧
      (∀ x ∈ before, x.innerName ≠ inner) ∧ n.innerName = inner ∧
      n.modifyDescendant? f chain = some n' ∧ t' = { t with nested := before ++ n' :: after } := by
  rcases split_or_new t.nested inner with ⟨before, n, after, split, first, same⟩ | new
  · rw [modifyDescendant?_of_split split first same, Option.map_eq_some_iff] at h
    obtain ⟨n', hn', rfl⟩ := h
    exact ⟨before, n, n', after, split, first, same, hn', rfl⟩
  · have hnone : t.nested.findIdx? (·.innerName == inner) = none :=
      List.findIdx?_eq_none_iff.2 fun x hx => by simpa using new x hx
    rw [modifyDescendant?, hnone, Option.bind_none] at h
    cases h

/-- **The type around an extended type is extended.** -/
theorem Extends.modifyDescendant? (hf : ∀ x, t.descendant? chain = some x → x.Extends (f x))
    (h : t.modifyDescendant? f chain = some t') : t.Extends t' := by
  induction chain generalizing t t' with
  | nil =>
    rw [TypeDef.modifyDescendant?, Option.some.injEq] at h
    exact h ▸ hf t rfl
  | cons inner chain ih =>
    obtain ⟨before, n, n', after, split, first, same, hn, rfl⟩ := modifyDescendant?_cons_eq_some h
    have hextends : n.Extends n' :=
      ih (fun x hx => hf x (by rw [descendant?_of_split split first same, hx])) hn
    obtain ⟨d, nested⟩ := t
    subst split
    exact .inside d before after hextends

/-- The root keeps its name if the changed type does. -/
theorem modifyDescendant?_name (hf : ∀ x, t.descendant? chain = some x → (f x).name = x.name)
    (h : t.modifyDescendant? f chain = some t') : t'.name = t.name := by
  cases chain with
  | nil =>
    rw [modifyDescendant?, Option.some.injEq] at h
    rw [← h, hf t rfl]
  | cons inner chain =>
    obtain ⟨_, _, _, _, _, _, _, _, rfl⟩ := modifyDescendant?_cons_eq_some h
    rfl

/-- **The changed type is found where it was**, as long as it keeps its name. -/
theorem descendant?_modifyDescendant? {x : TypeDef} (hx : t.descendant? chain = some x)
    (hf : (f x).name = x.name) :
    ∃ t', t.modifyDescendant? f chain = some t' ∧ t'.descendant? chain = some (f x) := by
  induction chain generalizing t with
  | nil =>
    obtain rfl : t = x := Option.some.inj hx
    exact ⟨f t, rfl, rfl⟩
  | cons inner chain ih =>
    rcases split_or_new t.nested inner with ⟨before, n, after, split, first, same⟩ | new
    · rw [descendant?_of_split split first same] at hx
      obtain ⟨n', hn', hfound⟩ := ih hx
      have hname : n'.name = n.name := by
        refine modifyDescendant?_name (fun y hy => ?_) hn'
        obtain rfl : x = y := Option.some.inj (hx.symm.trans hy)
        exact hf
      refine ⟨{ t with nested := before ++ n' :: after }, ?_, ?_⟩
      · rw [modifyDescendant?_of_split split first same, hn', Option.map_some]
      · rw [descendant?_replaced split first same hname, if_pos rfl, hfound]
    · have hnone : t.nestedType? inner = none :=
        List.find?_eq_none.2 fun y hy => by simpa using new y hy
      rw [descendant?, hnone] at hx
      cases hx

/-- What does not lie below the path stays whole, or lies around its end and has the same
declaration. -/
theorem descendant?_modifyDescendant?_or {path : List String}
    (hf : ∀ x, t.descendant? chain = some x → (f x).name = x.name)
    (h : t.modifyDescendant? f chain = some t') (hpath : ¬ chain <+: path) :
    t'.descendant? path = t.descendant? path ∨ path <+: chain ∧
      (t'.descendant? path).map (·.toDeclaration) =
        (t.descendant? path).map (·.toDeclaration) := by
  induction chain generalizing t t' path with
  | nil => exact absurd List.nil_prefix hpath
  | cons inner chain ih =>
    obtain ⟨before, n, n', after, split, first, same, hn, rfl⟩ := modifyDescendant?_cons_eq_some h
    have hfn : ∀ x, n.descendant? chain = some x → (f x).name = x.name :=
      fun x hx => hf x (by rw [descendant?_of_split split first same, hx])
    cases path with
    | nil => exact .inr ⟨List.nil_prefix, rfl⟩
    | cons segment path =>
      rw [List.cons_prefix_cons] at hpath
      rw [descendant?_replaced split first same (modifyDescendant?_name hfn hn)]
      split_ifs with hsegment
      · subst hsegment
        rw [descendant?_of_split split first same, List.cons_prefix_cons]
        rcases ih hfn hn fun hprefix => hpath ⟨rfl, hprefix⟩ with hwhole | ⟨habove, hdeclared⟩
        · exact .inl hwhole
        · exact .inr ⟨⟨rfl, habove⟩, hdeclared⟩
      · exact .inl rfl

/-- **What does not lie below the path is declared as before.** -/
theorem declaration_modifyDescendant? {path : List String}
    (hf : ∀ x, t.descendant? chain = some x → (f x).name = x.name)
    (h : t.modifyDescendant? f chain = some t') (hpath : ¬ chain <+: path) :
    (t'.descendant? path).map (·.toDeclaration) = (t.descendant? path).map (·.toDeclaration) := by
  rcases descendant?_modifyDescendant?_or hf h hpath with hwhole | ⟨-, hdeclared⟩
  · rw [hwhole]
  · exact hdeclared

/-- **What lies neither below the path nor around its end stays whole.** -/
theorem descendant?_modifyDescendant?_of_apart {path : List String}
    (hf : ∀ x, t.descendant? chain = some x → (f x).name = x.name)
    (h : t.modifyDescendant? f chain = some t') (hbelow : ¬ chain <+: path)
    (haround : ¬ path <+: chain) : t'.descendant? path = t.descendant? path :=
  (descendant?_modifyDescendant?_or hf h hbelow).resolve_right fun hboth => haround hboth.1

/-- Whether the second type is the first with `x'` in one place where that one has `x`. -/
inductive Substituted (x x' : TypeDef) : TypeDef → TypeDef → Prop
  | here : Substituted x x' x x'
  | inside (d : Declaration) (before after : List TypeDef) {n n' : TypeDef} :
      Substituted x x' n n' →
        Substituted x x' ⟨d, before ++ n :: after⟩ ⟨d, before ++ n' :: after⟩

/-- **A change in one place** is one in no other, be there more types at the end of the path. -/
theorem Substituted.modifyDescendant? {x : TypeDef} (hx : t.descendant? chain = some x)
    (h : t.modifyDescendant? f chain = some t') : Substituted x (f x) t t' := by
  induction chain generalizing t t' with
  | nil =>
    obtain rfl : t = x := Option.some.inj hx
    obtain rfl : f t = t' := Option.some.inj h
    exact .here
  | cons inner chain ih =>
    obtain ⟨before, n, n', after, split, first, same, hn, rfl⟩ := modifyDescendant?_cons_eq_some h
    rw [descendant?_of_split split first same] at hx
    have hinside : Substituted x (f x) n n' := ih hx hn
    obtain ⟨d, nested⟩ := t
    subst split
    exact .inside d before after hinside

end Mixins.TypeDef
