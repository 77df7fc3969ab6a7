import Mixins.Proofs.Merge.Extension
import Mixins.Proofs.Merge.Members
import Mixins.Proofs.WellNamed

/-!
# A merge, level by level

What a merge makes of its target does not depend on what was counted before. At each level of the
tree it depends only on what the target and the mixin declare at that level.

* `merge_target` — the target that comes out of a merge is a function of the target that goes in.
* `WellNamed.merged_composed` — a well-named target stays well named.
* `nestedType?_merged` — the nested type that is found under a segment afterwards.
* `descendant?_merged` — what the type at the end of a path declares afterwards.
-/

namespace Mixins

open TypeDef Merge

variable {interfaceName : String}

/-! ## What was counted has no say -/

mutual
theorem Merge.merge_target_congr : ∀ (m : TypeDef) {p q : Progress}, p.target = q.target →
    (merge interfaceName m p).target = (merge interfaceName m q).target
  | ⟨d, nested⟩, p, q, h => by
    rw [merge, merge, mergeMembers_target, mergeMembers_target, mergeNested_target_congr nested h]
theorem Merge.mergeNested_target_congr : ∀ (ns : List TypeDef) {p q : Progress},
    p.target = q.target →
    (mergeNested interfaceName ns p).target = (mergeNested interfaceName ns q).target
  | [], p, q, h => by
    rw [mergeNested, mergeNested, h]
  | n :: ns, ⟨t, o⟩, ⟨t', o'⟩, h => by
    simp only at h
    subst h
    rw [mergeNested, mergeNested]
    simp only
    split
    · exact mergeNested_target_congr ns rfl
    · split
      · exact mergeNested_target_congr ns rfl
      · refine mergeNested_target_congr ns ?_
        simp only
        congr 2
        exact merge_target_congr n rfl
end

/-- What a merge makes of its target. -/
def TypeDef.merged (interfaceName : String) (t m : TypeDef) : TypeDef :=
  (t.mergeMixin interfaceName m .zero).target

theorem Merge.merge_target (m : TypeDef) (p : Progress) :
    (merge interfaceName m p).target = p.target.merged interfaceName m :=
  merge_target_congr m rfl

/-- The target after the nested types `ns` of a mixin have been merged into it. -/
def TypeDef.mergedNested (interfaceName : String) (t : TypeDef) (ns : List TypeDef) : TypeDef :=
  (mergeNested interfaceName ns ⟨t, .zero⟩).target

theorem Merge.mergeNested_target (ns : List TypeDef) (p : Progress) :
    (mergeNested interfaceName ns p).target = p.target.mergedNested interfaceName ns :=
  mergeNested_target_congr ns rfl

namespace TypeDef

theorem merged_eq (t m : TypeDef) :
    t.merged interfaceName m =
      ⟨(t.mergedNested interfaceName m.nested).toDeclaration.absorb m.toDeclaration,
        (t.mergedNested interfaceName m.nested).nested⟩ := by
  obtain ⟨d, nested⟩ := m
  rw [merged, mergeMixin, merge, mergeMembers_target]
  rfl

theorem mergedNested_nil (t : TypeDef) : t.mergedNested interfaceName [] = t := by
  rw [mergedNested, mergeNested]

theorem mergedNested_cons (t n : TypeDef) (ns : List TypeDef) :
    t.mergedNested interfaceName (n :: ns) =
      (t.mergedNested interfaceName [n]).mergedNested interfaceName ns := by
  rw [mergedNested, mergeNested_cons, mergeNested_target]
  rfl

theorem merged_name (t m : TypeDef) : (t.merged interfaceName m).name = t.name :=
  (merge_extends interfaceName m ⟨t, .zero⟩).name

theorem merged_innerName (t m : TypeDef) :
    (t.merged interfaceName m).innerName = t.innerName := by
  rw [innerName, merged_name, innerName]

/-- The nested type of the target that takes in the nested type `n` of a mixin. -/
def host (t n : TypeDef) : TypeDef := (t.nestedType? n.innerName).getD (freshFor t n)

theorem host_of_split {t n own : TypeDef} {before after : List TypeDef}
    (split : t.nested = before ++ own :: after) (first : ∀ x ∈ before, x.innerName ≠ n.innerName)
    (same : own.innerName = n.innerName) : t.host n = own := by
  have hfind : t.nestedType? n.innerName = some own :=
    List.find?_eq_some_iff_append.2
      ⟨by simpa using same, before, after, split, by simpa using first⟩
  rw [host, hfind, Option.getD_some]

theorem host_of_new {t n : TypeDef} (new : ∀ x ∈ t.nested, x.innerName ≠ n.innerName) :
    t.host n = freshFor t n := by
  have hfind : t.nestedType? n.innerName = none :=
    List.find?_eq_none.2 fun x hx => by simpa using new x hx
  rw [host, hfind, Option.getD_none]

/-- The cases of `mergeNested_one`, for the target alone. -/
theorem mergedNested_one_cases (interfaceName : String) (t n : TypeDef) :
    (standsAsField interfaceName t n = true ∧ t.mergedNested interfaceName [n] = t) ∨
    standsAsField interfaceName t n = false ∧
      ((∃ before own after, t.nested = before ++ own :: after ∧
        (∀ x ∈ before, x.innerName ≠ n.innerName) ∧ own.innerName = n.innerName ∧
        t.mergedNested interfaceName [n] =
          { t with nested := before ++ own.merged interfaceName n :: after }) ∨
      ((∀ x ∈ t.nested, x.innerName ≠ n.innerName) ∧
        t.mergedNested interfaceName [n] =
          { t with nested := t.nested ++ [(freshFor t n).merged interfaceName n] })) := by
  have hstep := mergeNested_one interfaceName n ⟨t, .zero⟩
  unfold mergedNested
  generalize mergeNested interfaceName [n] ⟨t, .zero⟩ = q at hstep
  cases hstep with
  | passedOver h => exact .inl ⟨h, rfl⟩
  | @merged before after own h split first same =>
    exact .inr ⟨h, .inl ⟨before, own, after, split, first, same, by simp only [merge_target]⟩⟩
  | created h new => exact .inr ⟨h, .inr ⟨new, by simp only [merge_target]⟩⟩

theorem mergedNested_declaration (interfaceName : String) (t : TypeDef) (ns : List TypeDef) :
    (t.mergedNested interfaceName ns).toDeclaration = t.toDeclaration := by
  induction ns generalizing t with
  | nil => rw [mergedNested_nil]
  | cons n ns ih =>
    rw [mergedNested_cons, ih]
    rcases mergedNested_one_cases interfaceName t n with
      ⟨_, h⟩ | ⟨_, ⟨_, _, _, _, _, _, h⟩ | ⟨_, h⟩⟩ <;> rw [h]

/-- What holds of the nested types holds of them after others have been merged into the target, if
it holds of the empty types that are created for those and merging them keeps it. -/
theorem forall_nested_mergedNested {Q : TypeDef → Prop} {t : TypeDef} {ns : List TypeDef}
    (hfresh : ∀ n ∈ ns, ∀ t, Q (freshFor t n)) (ht : ∀ x ∈ t.nested, Q x)
    (hmerged : ∀ n ∈ ns, ∀ own, Q own → Q (own.merged interfaceName n)) :
    ∀ x ∈ (t.mergedNested interfaceName ns).nested, Q x := by
  induction ns generalizing t with
  | nil =>
    rw [mergedNested_nil]
    exact ht
  | cons n ns ih =>
    obtain ⟨hnew, hnews⟩ := List.forall_mem_cons.1 hfresh
    obtain ⟨hn, hns⟩ := List.forall_mem_cons.1 hmerged
    rw [mergedNested_cons]
    refine ih hnews ?_ hns
    rcases mergedNested_one_cases interfaceName t n with
      ⟨_, h⟩ | ⟨_, ⟨before, own, after, split, -, -, h⟩ | ⟨-, h⟩⟩
    · rw [h]
      exact ht
    · rw [split, List.forall_mem_append, List.forall_mem_cons] at ht
      obtain ⟨hbefore, hown, hafter⟩ := ht
      rw [h, List.forall_mem_append, List.forall_mem_cons]
      exact ⟨hbefore, hn own hown, hafter⟩
    · rw [h, List.forall_mem_append, List.forall_mem_singleton]
      exact ⟨ht, hn _ (hnew t)⟩

theorem merged_declaration (t m : TypeDef) :
    (t.merged interfaceName m).toDeclaration = t.toDeclaration.absorb m.toDeclaration := by
  rw [merged_eq, mergedNested_declaration]

theorem merged_nested (t m : TypeDef) :
    (t.merged interfaceName m).nested = (t.mergedNested interfaceName m.nested).nested := by
  rw [merged_eq]

/-! ## Well-named targets -/

theorem freshFor_wellNamed (t : TypeDef) {n : TypeDef} (hs : Name.IsSegment n.innerName) :
    (freshFor t n).WellNamed :=
  .ofBranches (Name.simple_nested_ne _ hs.2.1) ⟨fun _ h => (nomatch h), .nil⟩ fun _ h => nomatch h

theorem WellNamed.freshFor_innerName {t n : TypeDef} (ht : t.WellNamed)
    (hs : Name.IsSegment n.innerName) : (freshFor t n).innerName = n.innerName :=
  Name.inner_nested ht.simple_ne hs

theorem WellNamed.host {t n : TypeDef} (ht : t.WellNamed) (hs : Name.IsSegment n.innerName) :
    (t.host n).WellNamed ∧ (t.host n).name = Name.nested t.name n.innerName := by
  cases hfind : t.nestedType? n.innerName with
  | some own =>
    obtain ⟨hown, hinner⟩ := nestedType?_some hfind
    rw [TypeDef.host, hfind, Option.getD_some]
    exact ⟨ht.branch hown, by rw [(ht.innerName hown).2, hinner]⟩
  | none =>
    rw [TypeDef.host, hfind, Option.getD_none]
    exact ⟨freshFor_wellNamed t hs, rfl⟩

/-- The simple name of a nested type has a dollar sign in it. -/
theorem WellNamed.host_simpleName_ne {t n : TypeDef} (ht : t.WellNamed)
    (hs : Name.IsSegment n.innerName) (hdollar : '$' ∉ interfaceName.toList) :
    (t.host n).simpleName ≠ interfaceName := by
  intro heq
  refine hdollar ?_
  rw [← heq, simpleName, (ht.host hs).2]
  exact Name.dollar_mem_simple_nested _ hs.2.1

theorem WellNamed.mergedNested_one {t n : TypeDef} (ht : t.WellNamed)
    (hs : Name.IsSegment n.innerName)
    (hmerged : ∀ own : TypeDef, own.WellNamed → (own.merged interfaceName n).WellNamed) :
    (t.mergedNested interfaceName [n]).WellNamed := by
  rcases mergedNested_one_cases interfaceName t n with
    ⟨_, h⟩ | ⟨_, ⟨before, own, after, split, first, same, h⟩ | ⟨new, h⟩⟩
  · rw [h]
    exact ht
  · have hown : own ∈ t.nested := by simp [split]
    rw [h]
    exact ht.replace split (merged_name own n) (hmerged own (ht.branch hown))
  · have hname : ((freshFor t n).merged interfaceName n).name =
        Name.nested t.name n.innerName := merged_name _ n
    rw [h]
    refine ht.append ⟨n.innerName, hs, hname⟩ ?_ (hmerged _ (freshFor_wellNamed t hs))
    -- a nested type of that name would have been found under the segment
    intro x hx heq
    refine new x hx ?_
    rw [TypeDef.innerName, heq, hname, Name.inner_nested ht.simple_ne hs]

theorem WellNamed.mergedNested {t : TypeDef} {ns : List TypeDef} (ht : t.WellNamed)
    (hns : ∀ n ∈ ns, Name.IsSegment n.innerName ∧
      ∀ own : TypeDef, own.WellNamed → (own.merged interfaceName n).WellNamed) :
    (t.mergedNested interfaceName ns).WellNamed := by
  induction ns generalizing t with
  | nil =>
    rw [mergedNested_nil]
    exact ht
  | cons n ns ih =>
    obtain ⟨hn, hns⟩ := List.forall_mem_cons.1 hns
    rw [mergedNested_cons]
    exact ih (ht.mergedNested_one hn.1 hn.2) hns

/-- **A well-named target stays well named** when a mixin is merged into it whose nested types are
named after the types around them. -/
theorem WellNamed.merged_composed {t m : TypeDef} (ht : t.WellNamed) (hm : m.ComposedNames) :
    (t.merged interfaceName m).WellNamed := by
  induction m using nestedInduction generalizing t with
  | step m ih =>
    have hnested : (t.mergedNested interfaceName m.nested).WellNamed :=
      ht.mergedNested fun n hn =>
        ⟨(hm.innerName hn).1, fun own hown => ih n hn hown (hm.branch hn)⟩
    rw [merged_eq]
    exact hnested.ofName rfl

theorem WellNamed.merged {t m : TypeDef} (ht : t.WellNamed) (hm : m.WellNamed) :
    (t.merged interfaceName m).WellNamed :=
  ht.merged_composed hm.composedNames

/-! ## The nested type under a segment -/

theorem nestedType?_mergedNested_one (interfaceName : String) {t n : TypeDef} (ht : t.WellNamed)
    (hs : Name.IsSegment n.innerName) (segment : String) :
    (t.mergedNested interfaceName [n]).nestedType? segment =
      if n.innerName = segment ∧ standsAsField interfaceName t n = false then
        some ((t.host n).merged interfaceName n)
      else t.nestedType? segment := by
  rcases mergedNested_one_cases interfaceName t n with
    ⟨hskip, h⟩ | ⟨hskip, ⟨before, own, after, split, first, same, h⟩ | ⟨new, h⟩⟩
  · rw [h, if_neg (by simp [hskip])]
  · have hbefore : ∀ x ∈ before, ¬ (x.innerName == n.innerName) = true := by simpa using first
    rw [h, host_of_split split first same, nestedType?, nestedType?, split]
    by_cases hsegment : n.innerName = segment
    · subst hsegment
      rw [if_pos ⟨rfl, hskip⟩, List.find?_append, List.find?_eq_none.2 hbefore,
        Option.none_or, List.find?_cons_of_pos (by simp [merged_innerName, same])]
    · rw [if_neg (by simp [hsegment]), List.find?_append, List.find?_append,
        List.find?_cons_of_neg (by simp [merged_innerName, same, hsegment]),
        List.find?_cons_of_neg (by simp [same, hsegment])]
  · rw [h, host_of_new new, nestedType?, nestedType?, List.find?_append]
    have hfresh := ht.freshFor_innerName hs
    by_cases hsegment : n.innerName = segment
    · subst hsegment
      rw [if_pos ⟨rfl, hskip⟩, List.find?_eq_none.2 (by simpa using new), Option.none_or,
        List.find?_cons_of_pos (by simp [merged_innerName, hfresh])]
    · rw [if_neg (by simp [hsegment]),
        List.find?_cons_of_neg (by simp [merged_innerName, hfresh, hsegment]), List.find?_nil,
        Option.or_none]

theorem standsAsField_congr {t t' : TypeDef} (h : t'.toDeclaration = t.toDeclaration)
    (n : TypeDef) : standsAsField interfaceName t' n = standsAsField interfaceName t n := by
  simp only [standsAsField, simpleName, hasField_eq_any, h]

theorem nestedType?_mergedNested {t : TypeDef} {ns : List TypeDef} (ht : t.WellNamed)
    (hns : ∀ n ∈ ns, n.WellNamed ∧ Name.IsSegment n.innerName)
    (hdistinct : (ns.map TypeDef.innerName).Nodup) (segment : String) :
    (t.mergedNested interfaceName ns).nestedType? segment =
      match ns.find? (·.innerName == segment) with
      | none => t.nestedType? segment
      | some n =>
        if standsAsField interfaceName t n then t.nestedType? segment
        else some ((t.host n).merged interfaceName n) := by
  induction ns generalizing t with
  | nil => rw [mergedNested_nil, List.find?_nil]
  | cons n ns ih =>
    obtain ⟨⟨hn, hs⟩, hns⟩ := List.forall_mem_cons.1 hns
    rw [List.map_cons, List.nodup_cons] at hdistinct
    have hone := nestedType?_mergedNested_one interfaceName ht hs
    have hstep : (t.mergedNested interfaceName [n]).WellNamed :=
      ht.mergedNested_one hs fun own hown => hown.merged hn
    have hdecl := mergedNested_declaration interfaceName t [n]
    rw [mergedNested_cons, ih hstep hns hdistinct.2, hone segment]
    by_cases hsegment : n.innerName = segment
    · have hrest : ns.find? (·.innerName == segment) = none := by
        rw [List.find?_eq_none]
        intro x hx heq
        refine hdistinct.1 (List.mem_map.2 ⟨x, hx, ?_⟩)
        rw [beq_iff_eq.1 heq, hsegment]
      rw [hrest, List.find?_cons_of_pos (by simpa using hsegment)]
      cases hstands : standsAsField interfaceName t n <;> simp [hsegment, hstands]
    · rw [List.find?_cons_of_neg (by simpa using hsegment), if_neg (fun h => hsegment h.1)]
      cases hfind : ns.find? (·.innerName == segment) with
      | none => rfl
      | some x =>
        have hx : x.innerName = segment := by simpa using List.find?_some hfind
        -- the type that takes in `x` is still the one it was before `n` was merged
        have hhost : (t.mergedNested interfaceName [n]).host x = t.host x := by
          rw [host, host, hone x.innerName, hx, if_neg (fun h => hsegment h.1), freshFor, freshFor,
            hdecl]
        simp only [standsAsField_congr hdecl, hhost]

/-- **The nested type under a segment** after a merge. -/
theorem nestedType?_merged {t m : TypeDef} (ht : t.WellNamed) (hm : m.WellNamed)
    (segment : String) :
    (t.merged interfaceName m).nestedType? segment =
      match m.nestedType? segment with
      | none => t.nestedType? segment
      | some n =>
        if standsAsField interfaceName t n then t.nestedType? segment
        else some ((t.host n).merged interfaceName n) := by
  have hnested : (t.merged interfaceName m).nestedType? segment =
      (t.mergedNested interfaceName m.nested).nestedType? segment := by
    rw [nestedType?, merged_nested, nestedType?]
  rw [hnested]
  exact nestedType?_mergedNested ht (fun n hn => ⟨hm.branch hn, (hm.innerName hn).1⟩)
    hm.innerNames_nodup segment

/-! ## The end of a path -/

/-- The type at the end of a path in the mixin, if no nested type on the path is passed over. -/
def reached (interfaceName : String) : TypeDef → TypeDef → List String → Option TypeDef
  | _, m, [] => some m
  | t, m, segment :: path =>
    (m.nestedType? segment).bind fun n =>
      if standsAsField interfaceName t n then none
      else reached interfaceName (t.host n) n path

end TypeDef

/-- What a type of the given name declares after a merge: what it declared before, if anything, and
what the mixin lends it, if anything. -/
def Declaration.receive (name : String) (own lent : Option Declaration) : Option Declaration :=
  match lent with
  | none => own
  | some d =>
    some ((own.getD { (bare name d.kind).toDeclaration with access := d.access }).absorb d)

namespace TypeDef

theorem descendant?_reached {path : List String} {t m x : TypeDef}
    (h : reached interfaceName t m path = some x) : m.descendant? path = some x := by
  induction path generalizing t m with
  | nil => exact h
  | cons segment path ih =>
    rw [reached, Option.bind_eq_some_iff] at h
    obtain ⟨n, hn, h⟩ := h
    split at h
    · cases h
    · rw [descendant?, hn, Option.bind_some]
      exact ih h

/-- **The end of a path** after a merge: the target's own declaration at the end of the path and the
mixin's decide what is declared there. -/
theorem descendant?_merged {path : List String} {t m : TypeDef} (ht : t.WellNamed)
    (hm : m.WellNamed) :
    ((t.merged interfaceName m).descendant? path).map (·.toDeclaration) =
      Declaration.receive (Name.below t.name path)
        ((t.descendant? path).map (·.toDeclaration))
        ((reached interfaceName t m path).map (·.toDeclaration)) := by
  induction path generalizing t m with
  | nil => simp [descendant?, reached, Declaration.receive, merged_declaration]
  | cons segment path ih =>
    rw [descendant?, descendant?, reached, nestedType?_merged ht hm]
    cases hlent : m.nestedType? segment with
    | none => rfl
    | some n =>
      obtain ⟨hn, hsegment⟩ := nestedType?_some hlent
      simp only [Option.bind_some]
      split
      · rfl
      · simp only [Option.bind_some]
        cases hown : t.nestedType? segment with
        | some own =>
          obtain ⟨hmem, hinner⟩ := nestedType?_some hown
          have hhost : t.host n = own := by rw [host, hsegment, hown, Option.getD_some]
          have hname : Name.below t.name (segment :: path) = Name.below own.name path := by
            rw [(ht.innerName hmem).2, hinner]
            rfl
          rw [hhost, hname, ih (ht.branch hmem) (hm.branch hn), Option.bind_some]
        | none =>
          have hhost : t.host n = freshFor t n := by rw [host, hsegment, hown, Option.getD_none]
          have hname : Name.below t.name (segment :: path) =
              Name.below (freshFor t n).name path := by
            rw [← hsegment]
            rfl
          rw [hhost, hname, ih (freshFor_wellNamed t (hm.innerName hn).1) (hm.branch hn),
            Option.bind_none]
          cases path with
          | nil => rfl
          | cons inner path => rfl

/-- A target that is not the interface of string types passes nothing over. -/
theorem reached_eq_descendant? {path : List String} {t m : TypeDef} (ht : t.WellNamed)
    (hm : m.WellNamed) (hdollar : '$' ∉ interfaceName.toList)
    (hname : t.simpleName ≠ interfaceName) :
    reached interfaceName t m path = m.descendant? path := by
  induction path generalizing t m with
  | nil => rfl
  | cons segment path ih =>
    rw [reached, descendant?]
    cases hlent : m.nestedType? segment with
    | none => rfl
    | some n =>
      obtain ⟨hn, hsegment⟩ := nestedType?_some hlent
      have hstands : standsAsField interfaceName t n = false := by
        simp [standsAsField, hname]
      have hsegment := (hm.innerName hn).1
      rw [Option.bind_some, Option.bind_some, hstands, if_neg (by simp)]
      exact ih (ht.host hsegment).1 (hm.branch hn) (ht.host_simpleName_ne hsegment hdollar)

end TypeDef

end Mixins
