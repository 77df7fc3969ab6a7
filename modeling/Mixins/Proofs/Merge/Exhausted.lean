import Mixins.Proofs.Descendant
import Mixins.Proofs.Merge.Accounting
import Mixins.Proofs.Merge.Sequence

/-!
# Mixins that have lent all they can

A target has exhausted a mixin if it refuses each of its members and takes in none of its nested
types, or takes them in where the mixin's nested type is exhausted as well. It does not matter why a
member is refused: the name may be taken, or be one that no member may have, or the identity may be
taken after rebinding. Whatever is refused once is refused by every extension of the target. So a
mixin that has been merged stays exhausted, whatever is merged after it.

* `Exacting.refuses_gather` — what has been gathered is refused from then on.
* `Exhausts.merged_eq_self` — nothing more is taken from an exhausted mixin.
* `Exhausts.later` — it stays exhausted when the target is extended.
* `merged_exhausts` — a merge exhausts its mixin.
* `mergeMixins_again` — merging a mixin once more changes nothing.
-/

namespace Mixins

/-! ## Refused items -/

section Gathering

variable {α : Type} {admits : List α → α → Bool}

/-- Whether the list admits none of the items. -/
def Refuses (admits : List α → α → Bool) (own lent : List α) : Prop :=
  ∀ x ∈ lent, admits own x = false

/-- Whether nothing is admitted twice, and nothing that a shorter list has refused. -/
structure Exacting (admits : List α → α → Bool) : Prop where
  once : ∀ items x, admits (items ++ [x]) x = false
  later : ∀ {items items' : List α} {x : α}, items ⊆ items' → admits items x = false →
    admits items' x = false

theorem gather_of_refuses {own lent : List α} (h : Refuses admits own lent) :
    gather admits own lent = own := by
  induction lent with
  | nil => rfl
  | cons x lent ih =>
    obtain ⟨hx, hlent⟩ := List.forall_mem_cons.1 h
    rw [gather_cons, hx, if_neg (by simp)]
    exact ih hlent

theorem subset_gather (admits : List α → α → Bool) (own lent : List α) :
    own ⊆ gather admits own lent := by
  induction lent generalizing own with
  | nil => exact List.Subset.refl own
  | cons x lent ih =>
    rw [gather_cons]
    split
    · exact List.Subset.trans (List.subset_append_left own [x]) (ih _)
    · exact ih own

theorem Refuses.later {own own' lent : List α} (h : Refuses admits own lent)
    (hexacting : Exacting admits) (hsubset : own ⊆ own') : Refuses admits own' lent :=
  fun x hx => hexacting.later hsubset (h x hx)

/-- **What has been gathered** is refused from then on, be it there or not. -/
theorem Exacting.refuses_gather (h : Exacting admits) (own lent : List α) :
    Refuses admits (gather admits own lent) lent := by
  induction lent generalizing own with
  | nil => exact fun _ hx => nomatch hx
  | cons x lent ih =>
    rw [gather_cons]
    refine List.forall_mem_cons.2 ⟨?_, ih _⟩
    -- `x` is refused once it has had its turn, and what comes after it only makes the list longer
    refine h.later (subset_gather admits _ lent) ?_
    split
    · exact h.once own x
    · rename_i hx
      exact Bool.eq_false_iff.2 hx

end Gathering

theorem any_eq_false_of_subset {α : Type} {p : α → Bool} {items items' : List α}
    (hsubset : items ⊆ items') (h : items'.any p = false) : items.any p = false := by
  rw [List.any_eq_false] at h ⊢
  exact fun x hx => h x (hsubset hx)

theorem exacting_admitsMethod : Exacting admitsMethod where
  once methods m := by simp [admitsMethod]
  later {methods methods' m} hsubset h := by
    rw [← Bool.not_eq_true] at h ⊢
    intro hadmits
    apply h
    simp only [admitsMethod, Bool.and_eq_true, Bool.not_eq_true'] at hadmits ⊢
    obtain ⟨⟨hname, hvalid⟩, hidentity⟩ := hadmits
    exact ⟨⟨any_eq_false_of_subset hsubset hname, hvalid⟩,
      any_eq_false_of_subset hsubset hidentity⟩

theorem exacting_admitsField : Exacting admitsField where
  once fields f := by simp [admitsField]
  later {fields fields' f} hsubset h := by
    rw [← Bool.not_eq_true] at h ⊢
    intro hadmits
    apply h
    simp only [admitsField, Bool.and_eq_true, Bool.not_eq_true'] at hadmits ⊢
    exact ⟨any_eq_false_of_subset hsubset hadmits.1, hadmits.2⟩

theorem exacting_admitsConstructor : Exacting admitsConstructor where
  once constructors c := by simp [admitsConstructor]
  later {constructors constructors' c} hsubset h := by
    rw [← Bool.not_eq_true] at h ⊢
    intro hadmits
    apply h
    simp only [admitsConstructor, Bool.not_eq_true'] at hadmits ⊢
    exact any_eq_false_of_subset hsubset hadmits

/-! ## Declarations -/

namespace Declaration

variable {own own' lent : Declaration}

/-- Whether no member that is lent is admitted. -/
structure Exhausts (own lent : Declaration) : Prop where
  methods : Refuses admitsMethod own.methods (lent.methods.map (·.rebind lent.name own.name))
  fields : Refuses admitsField own.fields (lent.fields.map (·.rebind lent.name own.name))
  constructors : Refuses admitsConstructor own.constructors
    (lent.constructors.map (·.rebind lent.name own.name))

theorem Exhausts.absorb_eq (h : own.Exhausts lent) : own.absorb lent = own := by
  rw [absorb, gather_of_refuses h.methods, gather_of_refuses h.fields,
    gather_of_refuses h.constructors]

theorem Exhausts.later (h : own.Exhausts lent) (hextends : own.Extends own') :
    own'.Exhausts lent := by
  constructor
  · rw [hextends.name]
    exact h.methods.later exacting_admitsMethod hextends.methods.subset
  · rw [hextends.name]
    exact h.fields.later exacting_admitsField hextends.fields.subset
  · rw [hextends.name]
    exact h.constructors.later exacting_admitsConstructor hextends.constructors.subset

theorem absorb_exhausts (own lent : Declaration) : (own.absorb lent).Exhausts lent :=
  ⟨exacting_admitsMethod.refuses_gather _ _, exacting_admitsField.refuses_gather _ _,
    exacting_admitsConstructor.refuses_gather _ _⟩

end Declaration

/-! ## Types -/

namespace TypeDef

open Merge

variable {interfaceName : String} {t t' m : TypeDef}

/-- Whether there is nothing left that the mixin `m` could lend to `t`. -/
inductive Exhausts (interfaceName : String) : TypeDef → TypeDef → Prop
  | intro {t m : TypeDef} (declaration : t.toDeclaration.Exhausts m.toDeclaration)
      (present : ∀ n ∈ m.nested, standsAsField interfaceName t n = false →
        (t.nestedType? n.innerName).isSome)
      (nested : ∀ n ∈ m.nested, ∀ own, standsAsField interfaceName t n = false →
        t.nestedType? n.innerName = some own → Exhausts interfaceName own n) :
      Exhausts interfaceName t m

/-- A nested type that is passed over is passed over by every extension. -/
theorem Extends.standsAsField {n : TypeDef} (h : t.Extends t')
    (hstands : standsAsField interfaceName t n = true) :
    standsAsField interfaceName t' n = true := by
  have hsimple : t'.simpleName = t.simpleName := by rw [simpleName, h.name, simpleName]
  rw [Merge.standsAsField, Bool.and_eq_true, hasField_eq_any, List.any_eq_true] at hstands ⊢
  obtain ⟨hname, f, hf, hfield⟩ := hstands
  refine ⟨?_, f, h.declaration.fields.subset hf, hfield⟩
  rw [hsimple]
  exact hname

theorem Extends.not_standsAsField {n : TypeDef} (h : t.Extends t')
    (hstands : Merge.standsAsField interfaceName t' n = false) :
    Merge.standsAsField interfaceName t n = false := by
  rw [← Bool.not_eq_true] at hstands ⊢
  exact fun hbefore => hstands (h.standsAsField hbefore)

/-- An exhausted mixin stays exhausted. -/
theorem Exhausts.later (h : Exhausts interfaceName t m) (hextends : t.Extends t') :
    Exhausts interfaceName t' m := by
  induction h generalizing t' with
  | @intro t m hdecl hpresent _ ih =>
    have hfound : ∀ n ∈ m.nested, Merge.standsAsField interfaceName t' n = false →
        ∃ own own', Merge.standsAsField interfaceName t n = false ∧
          t.nestedType? n.innerName = some own ∧
          t'.nestedType? n.innerName = some own' ∧ own.Extends own' := by
      intro n hn hstands
      have hbefore := hextends.not_standsAsField hstands
      obtain ⟨own, hown⟩ := Option.isSome_iff_exists.1 (hpresent n hn hbefore)
      obtain ⟨own', hown', hext⟩ := hextends.nestedType? hown
      exact ⟨own, own', hbefore, hown, hown', hext⟩
    refine .intro (hdecl.later hextends.declaration) (fun n hn hstands => ?_)
      fun n hn x hstands hx => ?_
    · obtain ⟨_, own', _, _, hown', _⟩ := hfound n hn hstands
      rw [hown', Option.isSome_some]
    · obtain ⟨own, own', hbefore, hown, hown', hext⟩ := hfound n hn hstands
      obtain rfl : own' = x := Option.some.inj (hown'.symm.trans hx)
      exact ih n hn own hbefore hown hext

theorem eta (t : TypeDef) : ⟨t.toDeclaration, t.nested⟩ = t := by
  cases t
  rfl

theorem mergedNested_eq_self {ns : List TypeDef}
    (h : ∀ n ∈ ns, t.mergedNested interfaceName [n] = t) : t.mergedNested interfaceName ns = t := by
  induction ns with
  | nil => exact mergedNested_nil t
  | cons n ns ih =>
    obtain ⟨hn, hns⟩ := List.forall_mem_cons.1 h
    rw [mergedNested_cons, hn]
    exact ih hns

/-- **Nothing more is taken from an exhausted mixin.** -/
theorem Exhausts.merged_eq_self (h : Exhausts interfaceName t m) :
    t.merged interfaceName m = t := by
  induction h with
  | @intro t m hdecl hpresent _ ih =>
    have hnested : t.mergedNested interfaceName m.nested = t := by
      refine mergedNested_eq_self fun n hn => ?_
      rcases mergedNested_one_cases interfaceName t n with
        ⟨-, heq⟩ | ⟨hstands, ⟨before, own, after, split, first, same, heq⟩ | ⟨new, -⟩⟩
      · exact heq
      · have hown : own.merged interfaceName n = own :=
          ih n hn own hstands (nestedType?_of_split split first same)
        rw [heq, hown, ← split, eta]
      · have hnone : t.nestedType? n.innerName = none :=
          List.find?_eq_none.2 fun x hx => by simpa using new x hx
        have hsome := hpresent n hn hstands
        rw [hnone] at hsome
        cases hsome
    rw [merged_eq, hnested, hdecl.absorb_eq, eta]

/-- **A merge exhausts its mixin**, whatever the names of the members are. -/
theorem merged_exhausts (ht : t.WellNamed) (hm : m.WellNamed) :
    Exhausts interfaceName (t.merged interfaceName m) m := by
  induction m using nestedInduction generalizing t with
  | step m ih =>
    have hextends : t.Extends (t.merged interfaceName m) := merge_extends interfaceName m ⟨t, .zero⟩
    have hfound : ∀ n ∈ m.nested,
        Merge.standsAsField interfaceName (t.merged interfaceName m) n = false →
        (t.merged interfaceName m).nestedType? n.innerName =
          some ((t.host n).merged interfaceName n) := by
      intro n hn hstands
      have hlent : m.nestedType? n.innerName = some n := hm.nestedType?_eq_some_iff.2 ⟨hn, rfl⟩
      rw [nestedType?_merged ht hm, hlent]
      dsimp only
      rw [hextends.not_standsAsField hstands, if_neg (by simp)]
    refine .intro ?_ (fun n hn hstands => ?_) fun n hn own hstands hown => ?_
    · rw [merged_declaration]
      exact Declaration.absorb_exhausts t.toDeclaration m.toDeclaration
    · rw [hfound n hn hstands, Option.isSome_some]
    · obtain rfl : (t.host n).merged interfaceName n = own :=
        Option.some.inj ((hfound n hn hstands).symm.trans hown)
      exact ih n hn (ht.host (hm.innerName hn).1).1 (hm.branch hn)

/-! ## Several mixins -/

theorem foldl_merged_extends (t : TypeDef) (mixins : List TypeDef) :
    t.Extends (mixins.foldl (TypeDef.merged interfaceName) t) := by
  induction mixins generalizing t with
  | nil => exact .refl t
  | cons m mixins ih => exact (merge_extends interfaceName m ⟨t, .zero⟩).trans (ih _)

/-- Several merges exhaust each of the mixins. -/
theorem foldl_merged_exhausts {mixins : List TypeDef} (ht : t.WellNamed)
    (hmixins : ∀ x ∈ mixins, x.WellNamed) (hm : m ∈ mixins) :
    Exhausts interfaceName (mixins.foldl (TypeDef.merged interfaceName) t) m := by
  induction mixins generalizing t with
  | nil => cases hm
  | cons x mixins ih =>
    obtain ⟨hx, hrest⟩ := List.forall_mem_cons.1 hmixins
    rcases List.mem_cons.1 hm with rfl | hm
    · exact (merged_exhausts ht hx).later (foldl_merged_extends _ mixins)
    · exact ih (ht.merged hx) hrest hm

/-- **Merging a mixin once more changes nothing.** After well-named mixins have been merged into a
well-named target, each of them leaves the target as it is and adds nothing to what was added. -/
theorem mergeMixins_again (interfaceName : String) {target : TypeDef} {mixins : List TypeDef}
    (htarget : target.WellNamed) (hmixins : ∀ x ∈ mixins, x.WellNamed) (hm : m ∈ mixins)
    (outcome before : Outcome) :
    let result := (target.mergeMixins interfaceName mixins outcome).target
    let again := result.mergeMixin interfaceName m before
    again.target = result ∧ again.outcome.added = before.added := by
  intro result again
  have hexhausts : Exhausts interfaceName result m := by
    have hresult : result = mixins.foldl (TypeDef.merged interfaceName) target :=
      mergeMixins_target target mixins outcome
    rw [hresult]
    exact foldl_merged_exhausts htarget hmixins hm
  have hsame : again.target = result :=
    (merge_target m ⟨result, before⟩).trans hexhausts.merged_eq_self
  have hsize : again.outcome.added + result.size = before.added + again.target.size :=
    (merge_changes interfaceName m ⟨result, before⟩).size
  refine ⟨hsame, ?_⟩
  rw [hsame] at hsize
  omega

/-- A class with a field `d`, a method of a name that no method may have, a constructor that takes
the class itself, and a class in it that is declared as `d`. -/
def lendingTwice (name : String) : TypeDef :=
  { bare name .classType with
    fields := [⟨"d", .int, publicAccess, none⟩]
    methods := [⟨"x/y", ⟨[], .void⟩, publicAccess, none, none⟩]
    constructors := [⟨⟨[.object name], .void⟩, publicAccess, none⟩]
    nested := [{ bare (Name.nested name "d") .classType with
      methods := [⟨"f", ⟨[], .object name⟩, publicAccess, none, none⟩] }] }

/-- The interface of string types takes in a nested class that it would pass over the next time. The
constructors of both mixins become one. -/
theorem mergeMixins_again_passedOver :
    let target := bare "u.StringTypes" .interfaceType
    let first := lendingTwice "a.M"
    let second := lendingTwice "b.N"
    let result := (target.mergeMixins "StringTypes" [first, second] .zero).target
    (target.WellNamed ∧ first.WellNamed ∧ second.WellNamed ∧ first ∈ [first, second]) ∧
    (∀ n ∈ first.nested, standsAsField "StringTypes" target n = false ∧
      standsAsField "StringTypes" result n = true) ∧
    (result.mergeMixin "StringTypes" first .zero).target = result ∧
    (result.mergeMixin "StringTypes" first .zero).outcome.added = 0 := by
  have htarget : (bare "u.StringTypes" .interfaceType).WellNamed := by decide
  have hfirst : (lendingTwice "a.M").WellNamed := by decide
  have hsecond : (lendingTwice "b.N").WellNamed := by decide
  have hmem : lendingTwice "a.M" ∈ [lendingTwice "a.M", lendingTwice "b.N"] := List.mem_cons_self
  have hmixins : ∀ x ∈ [lendingTwice "a.M", lendingTwice "b.N"], x.WellNamed := by
    simp [hfirst, hsecond]
  refine ⟨⟨htarget, hfirst, hsecond, hmem⟩, ?_, ?_⟩
  · decide +kernel
  · exact mergeMixins_again "StringTypes" htarget hmixins hmem .zero .zero

end TypeDef

end Mixins
