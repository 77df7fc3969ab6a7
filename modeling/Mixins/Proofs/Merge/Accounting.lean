import Mixins.Proofs.Merge.Level

/-!
# What a merge counts

Everything that a target takes over, members and nested types alike, is counted as added, just once.
Every member of the mixin is counted once, as added, ignored or failed, unless it lies in a nested
type that is passed over.

* `Changes.size` — the target grows by what is counted as added.
* `Changes.nestedTotal_le` — no nested type is removed.
* `passedOver_eq_nil` — a target that is not the interface of string types passes nothing over.
* `merge_accounts` — all that is counted, exactly, whatever is passed over.
* `Changes.grows` — no count decreases.
* `merge_counted_le` — no more is counted than the mixin has.
-/

namespace Mixins

/-- Everything that has been counted. -/
def Outcome.counted (o : Outcome) : Nat := o.added + o.ignored + o.failed

theorem Outcome.counted_add (a b : Outcome) : (a.add b).counted = a.counted + b.counted := by
  simp only [counted, add]
  omega

/-- Whether nothing has been taken back between two outcomes. -/
structure Outcome.Grows (o o' : Outcome) : Prop where
  added : o.added ≤ o'.added
  ignored : o.ignored ≤ o'.ignored
  failed : o.failed ≤ o'.failed

namespace TypeDef

/-! ## A tree of which one branch changes -/

theorem sumOver_inside {count : TypeDef → Nat} {d : Declaration} {before after : List TypeDef}
    {own own' : TypeDef}
    (h : count ⟨d, before ++ own :: after⟩ = count ⟨d, before ++ own' :: after⟩) :
    sumOver count ⟨d, before ++ own :: after⟩ + sumOver count own' =
      sumOver count ⟨d, before ++ own' :: after⟩ + sumOver count own := by
  rw [sumOver_eq, sumOver_eq _ ⟨d, before ++ own' :: after⟩, h]
  simp only [List.map_append, List.map_cons, List.sum_append, List.sum_cons]
  omega

theorem memberTotal_inside (d : Declaration) (before after : List TypeDef) (own own' : TypeDef) :
    memberTotal ⟨d, before ++ own :: after⟩ + own'.memberTotal =
      memberTotal ⟨d, before ++ own' :: after⟩ + own.memberTotal := sumOver_inside rfl

theorem nestedTotal_inside (d : Declaration) (before after : List TypeDef) (own own' : TypeDef) :
    nestedTotal ⟨d, before ++ own :: after⟩ + own'.nestedTotal =
      nestedTotal ⟨d, before ++ own' :: after⟩ + own.nestedTotal :=
  sumOver_inside (by simp)

theorem size_inside (d : Declaration) (before after : List TypeDef) (own own' : TypeDef) :
    size ⟨d, before ++ own :: after⟩ + own'.size =
      size ⟨d, before ++ own' :: after⟩ + own.size := by
  have hmembers := memberTotal_inside d before after own own'
  have hnested := nestedTotal_inside d before after own own'
  unfold size
  omega

theorem size_append (d : Declaration) (nested : List TypeDef) (n : TypeDef) :
    size ⟨d, nested ++ [n]⟩ = size ⟨d, nested⟩ + n.size + 1 := by
  rw [size_eq, size_eq ⟨d, nested⟩]
  simp only [memberCount, List.length_append, List.length_singleton, List.map_append,
    List.map_singleton, List.sum_append, List.sum_singleton]
  omega

theorem nestedTotal_append (d : Declaration) (nested : List TypeDef) (n : TypeDef) :
    nestedTotal ⟨d, nested ++ [n]⟩ = nestedTotal ⟨d, nested⟩ + n.nestedTotal + 1 := by
  rw [nestedTotal_eq, nestedTotal_eq ⟨d, nested⟩]
  simp only [List.length_append, List.length_singleton, List.map_append, List.map_singleton,
    List.sum_append, List.sum_singleton]
  omega

theorem size_freshFor (t n : TypeDef) : (Merge.freshFor t n).size = 0 := by
  rw [size_eq]
  rfl

theorem nestedTotal_freshFor (t n : TypeDef) : (Merge.freshFor t n).nestedTotal = 0 := by
  rw [nestedTotal_eq]
  rfl

/-- Members are no part of what is nested. -/
theorem nestedTotal_congr {t t' : TypeDef} (h : t.nested = t'.nested) :
    t.nestedTotal = t'.nestedTotal := by
  rw [nestedTotal_eq, nestedTotal_eq t', h]

end TypeDef

namespace Merge

open TypeDef

/-! ## The target grows by what is added -/

theorem MemberChange.size {p q : Progress} (h : MemberChange p q) :
    q.outcome.added + p.target.size = p.outcome.added + q.target.size := by
  obtain ⟨⟨d, nested⟩, o⟩ := p
  cases h with
  | ignored | failed => rfl
  | method | field | ofConstructor =>
    rw [size_eq, size_eq ⟨_, nested⟩]
    simp only [Outcome.oneAdded, memberCount, List.length_append, List.length_singleton]
    omega

theorem Change.size {p q : Progress} (h : Change p q) :
    q.outcome.added + p.target.size = p.outcome.added + q.target.size := by
  induction h with
  | member h => exact h.size
  | created p n =>
    obtain ⟨⟨d, nested⟩, o⟩ := p
    rw [size_append, size_freshFor]
    simp only [Outcome.oneAdded]
    omega
  | @inside d before after p q _ ih =>
    have hinside := size_inside d before after p.target q.target
    simp only [Progress.inside]
    omega

theorem Changes.size {p q : Progress} (h : Changes p q) :
    q.outcome.added + p.target.size = p.outcome.added + q.target.size := by
  induction h with
  | refl => rfl
  | tail _ hstep ih =>
    have hsize := hstep.size
    omega

/-! ## No nested type is removed -/

theorem MemberChange.nested {p q : Progress} (h : MemberChange p q) :
    q.target.nested = p.target.nested := by
  cases h with
  | ignored | failed | method | field | ofConstructor => rfl

theorem Change.nestedTotal_le {p q : Progress} (h : Change p q) :
    p.target.nestedTotal ≤ q.target.nestedTotal := by
  induction h with
  | member h => exact Nat.le_of_eq (nestedTotal_congr h.nested.symm)
  | created p n =>
    obtain ⟨⟨d, nested⟩, o⟩ := p
    simp only [nestedTotal_append]
    omega
  | @inside d before after p q _ ih =>
    have hinside := nestedTotal_inside d before after p.target q.target
    simp only [Progress.inside]
    omega

theorem Changes.nestedTotal_le {p q : Progress} (h : Changes p q) :
    p.target.nestedTotal ≤ q.target.nestedTotal := by
  induction h with
  | refl => exact Nat.le_refl _
  | tail _ hstep ih => exact Nat.le_trans ih hstep.nestedTotal_le

/-! ## Every member is counted -/

theorem MemberChange.counted {p q : Progress} (h : MemberChange p q) :
    q.outcome.counted = p.outcome.counted + 1 := by
  cases h with
  | ignored | failed | method | field | ofConstructor =>
    simp only [Outcome.counted, Progress.ignored, Outcome.oneAdded, Outcome.oneIgnored,
      Outcome.oneFailed]
    omega

theorem foldl_counted {α : Type} {step : Progress → α → Progress}
    (h : ∀ p x, MemberChange p (step p x)) (items : List α) (p : Progress) :
    (items.foldl step p).outcome.counted = p.outcome.counted + items.length := by
  induction items generalizing p with
  | nil => rfl
  | cons x items ih =>
    rw [List.foldl_cons, ih, (h p x).counted, List.length_cons]
    omega

theorem mergeMembers_counted (d : Declaration) (p : Progress) :
    (p.mergeMembers d).outcome.counted =
      p.outcome.counted + (d.methods.length + d.fields.length + d.constructors.length) := by
  rw [Progress.mergeMembers, foldl_counted (mergeConstructor_change d.name),
    foldl_counted (mergeField_change d.name), foldl_counted (mergeMethod_change d.name)]
  omega

/-! ## Nested types that are passed over -/

variable (interfaceName : String)

mutual
/-- The nested types of a mixin, at every depth, that the target has a field for when it comes to
them. -/
def passedOver : TypeDef → TypeDef → List TypeDef
  | ⟨_, nested⟩, t => passedOverNested nested t
def passedOverNested : List TypeDef → TypeDef → List TypeDef
  | [], _ => []
  | n :: ns, t =>
    (if standsAsField interfaceName t n then [n] else passedOver n (t.host n)) ++
      passedOverNested ns (t.mergedNested interfaceName [n])
end

theorem passedOver_eq (m t : TypeDef) :
    passedOver interfaceName m t = passedOverNested interfaceName m.nested t := by
  obtain ⟨d, nested⟩ := m
  rw [passedOver]

variable {interfaceName} in
theorem passedOverNested_eq_nil {ns : List TypeDef} {t : TypeDef} (ht : t.WellNamed)
    (hns : ∀ n ∈ ns, n.WellNamed ∧ Name.IsSegment n.innerName ∧
      ∀ own : TypeDef, own.WellNamed → own.simpleName ≠ interfaceName →
        passedOver interfaceName n own = [])
    (hdollar : '$' ∉ interfaceName.toList) (hname : t.simpleName ≠ interfaceName) :
    passedOverNested interfaceName ns t = [] := by
  induction ns generalizing t with
  | nil => rw [passedOverNested]
  | cons n ns ih =>
    obtain ⟨⟨hn, hsegment, hinner⟩, hns⟩ := List.forall_mem_cons.1 hns
    have hstands : standsAsField interfaceName t n = false := by
      simp [standsAsField, hname]
    have hhost := hinner (t.host n) (ht.host hsegment).1 (ht.host_simpleName_ne hsegment hdollar)
    -- the next nested type comes to the target as `n` has left it, which has the same name
    have hstep : (t.mergedNested interfaceName [n]).WellNamed :=
      ht.mergedNested_one hsegment fun own hown => hown.merged hn
    have hsimple : (t.mergedNested interfaceName [n]).simpleName ≠ interfaceName := by
      rw [simpleName, mergedNested_declaration]
      exact hname
    rw [passedOverNested, hstands, if_neg (by simp), hhost, ih hstep hns hsimple, List.append_nil]

variable {interfaceName} in
/-- A target that is not the interface of string types passes nothing over. -/
theorem passedOver_eq_nil {m t : TypeDef} (ht : t.WellNamed) (hm : m.WellNamed)
    (hdollar : '$' ∉ interfaceName.toList) (hname : t.simpleName ≠ interfaceName) :
    passedOver interfaceName m t = [] := by
  induction m using nestedInduction generalizing t with
  | step m ih =>
    rw [passedOver_eq]
    refine passedOverNested_eq_nil ht (fun n hn => ?_) hdollar hname
    exact ⟨hm.branch hn, (hm.innerName hn).1,
      fun own hown hsimple => ih n hn hown (hm.branch hn) hsimple⟩

/-! ## The accounts -/

/-- Whether what has been counted between `p` and `q` is the nested types created between them and
those of `members` members that do not lie in the types `passed` over. -/
def Accounts (p q : Progress) (members : Nat) (passed : List TypeDef) : Prop :=
  q.outcome.counted + p.target.nestedTotal + (passed.map memberTotal).sum =
    p.outcome.counted + q.target.nestedTotal + members

theorem Accounts.trans {p q r : Progress} {members members' : Nat} {passed passed' : List TypeDef}
    (h : Accounts p q members passed) (h' : Accounts q r members' passed') :
    Accounts p r (members + members') (passed ++ passed') := by
  unfold Accounts at h h' ⊢
  rw [List.map_append, List.sum_append]
  omega

/-- What is counted in a nested type is counted in the type around it. -/
theorem Accounts.inside (d : Declaration) (before after : List TypeDef) {p q : Progress}
    {members : Nat} {passed : List TypeDef} (h : Accounts p q members passed) :
    Accounts (p.inside d before after) (q.inside d before after) members passed := by
  have hinside := nestedTotal_inside d before after p.target q.target
  unfold Accounts at h ⊢
  simp only [Progress.inside]
  omega

theorem mergeMembers_accounts (d : Declaration) (p : Progress) :
    Accounts p (p.mergeMembers d)
      (d.methods.length + d.fields.length + d.constructors.length) [] := by
  have hcounted := mergeMembers_counted d p
  have htarget : (p.mergeMembers d).target.nestedTotal = p.target.nestedTotal :=
    nestedTotal_congr (by rw [mergeMembers_target])
  unfold Accounts
  rw [List.map_nil, List.sum_nil]
  omega

/-- The accounts of one nested type, if the accounts are right of what takes it in. -/
theorem mergeNested_one_accounts {n : TypeDef}
    (ih : ∀ p : Progress, Accounts p (merge interfaceName n p) n.memberTotal
      (passedOver interfaceName n p.target)) (p : Progress) :
    Accounts p (mergeNested interfaceName [n] p) n.memberTotal
      (if standsAsField interfaceName p.target n then [n]
        else passedOver interfaceName n (p.target.host n)) := by
  have hstep := mergeNested_one interfaceName n p
  generalize mergeNested interfaceName [n] p = q at hstep
  cases hstep with
  | passedOver h =>
    rw [if_pos h]
    simp only [Accounts, List.map_singleton, List.sum_singleton]
  | @merged before after own h split first same =>
    have hinner := (ih ⟨own, p.outcome⟩).inside p.target.toDeclaration before after
    rw [← p.eq_inside split] at hinner
    rw [if_neg (by simp [h]), host_of_split split first same]
    exact hinner
  | created h new =>
    have hinner := (ih ⟨freshFor p.target n, p.outcome.oneAdded⟩).inside
      p.target.toDeclaration p.target.nested []
    have hnew : Accounts p (Progress.inside p.target.toDeclaration p.target.nested []
        ⟨freshFor p.target n, p.outcome.oneAdded⟩) 0 [] := by
      have happend := nestedTotal_append p.target.toDeclaration p.target.nested
        (freshFor p.target n)
      rw [nestedTotal_freshFor] at happend
      have htarget : p.target.nestedTotal =
          nestedTotal ⟨p.target.toDeclaration, p.target.nested⟩ := nestedTotal_congr rfl
      simp only [Accounts, Progress.inside, Outcome.counted, Outcome.oneAdded, List.map_nil,
        List.sum_nil]
      omega
    have hboth := hnew.trans hinner
    rw [Nat.zero_add, List.nil_append] at hboth
    rw [if_neg (by simp [h]), host_of_new new]
    exact hboth

mutual
/-- **The accounts of a merge**, whatever is passed over. -/
theorem merge_accounts : ∀ (m : TypeDef) (p : Progress),
    Accounts p (merge interfaceName m p) m.memberTotal (passedOver interfaceName m p.target)
  | ⟨d, nested⟩, p => by
    have hboth := (mergeNested_accounts nested p).trans
      (mergeMembers_accounts d (mergeNested interfaceName nested p))
    rw [List.append_nil, Nat.add_comm] at hboth
    rw [merge, passedOver, memberTotal_eq]
    exact hboth
theorem mergeNested_accounts : ∀ (ns : List TypeDef) (p : Progress),
    Accounts p (mergeNested interfaceName ns p) (ns.map memberTotal).sum
      (passedOverNested interfaceName ns p.target)
  | [], p => by
    rw [mergeNested, passedOverNested]
    rfl
  | n :: ns, p => by
    have hone := mergeNested_one_accounts interfaceName (merge_accounts n) p
    have hrest := mergeNested_accounts ns (mergeNested interfaceName [n] p)
    rw [mergeNested_target [n] p] at hrest
    rw [mergeNested_cons, passedOverNested, List.map_cons, List.sum_cons]
    exact hone.trans hrest
end

/-! ## No count decreases -/

theorem Change.grows {p q : Progress} (h : Change p q) : p.outcome.Grows q.outcome := by
  induction h with
  | member h =>
    cases h with
    | ignored | failed | method | field | ofConstructor =>
      constructor <;>
        simp only [Progress.ignored, Outcome.oneAdded, Outcome.oneIgnored, Outcome.oneFailed] <;>
        omega
  | created p n => constructor <;> simp only [Outcome.oneAdded] <;> omega
  | inside _ _ _ _ ih => exact ih

theorem Changes.grows {p q : Progress} (h : Changes p q) : p.outcome.Grows q.outcome := by
  induction h with
  | refl => exact ⟨Nat.le_refl _, Nat.le_refl _, Nat.le_refl _⟩
  | tail _ hstep ih =>
    have hgrows := hstep.grows
    exact ⟨Nat.le_trans ih.added hgrows.added, Nat.le_trans ih.ignored hgrows.ignored,
      Nat.le_trans ih.failed hgrows.failed⟩

/-! ## No more is counted than the mixin has -/

/-- What is counted of one nested type, if no more is counted of it than it has. -/
theorem mergeNested_one_counted_le {n : TypeDef}
    (ih : ∀ p : Progress, (merge interfaceName n p).outcome.counted ≤ p.outcome.counted + n.size)
    (p : Progress) :
    (mergeNested interfaceName [n] p).outcome.counted ≤ p.outcome.counted + (n.size + 1) := by
  have hstep := mergeNested_one interfaceName n p
  generalize mergeNested interfaceName [n] p = q at hstep
  cases hstep with
  | passedOver h => omega
  | @merged before after own h split first same =>
    have hinner := ih ⟨own, p.outcome⟩
    dsimp only at hinner ⊢
    omega
  | created h new =>
    have hinner := ih ⟨freshFor p.target n, p.outcome.oneAdded⟩
    simp only [Outcome.counted, Outcome.oneAdded] at hinner ⊢
    omega

mutual
/-- **No more is counted than the mixin has**, members and nested types at every depth. -/
theorem merge_counted_le : ∀ (m : TypeDef) (p : Progress),
    (merge interfaceName m p).outcome.counted ≤ p.outcome.counted + m.size
  | ⟨d, nested⟩, p => by
    have hnested := mergeNested_counted_le nested p
    rw [merge, mergeMembers_counted, TypeDef.size_eq]
    simp only [TypeDef.memberCount]
    omega
theorem mergeNested_counted_le : ∀ (ns : List TypeDef) (p : Progress),
    (mergeNested interfaceName ns p).outcome.counted ≤
      p.outcome.counted + (ns.length + (ns.map TypeDef.size).sum)
  | [], p => by
    rw [mergeNested]
    exact Nat.le_add_right _ _
  | n :: ns, p => by
    have hone := mergeNested_one_counted_le interfaceName (merge_counted_le n) p
    have hrest := mergeNested_counted_le ns (mergeNested interfaceName [n] p)
    rw [mergeNested_cons, List.length_cons, List.map_cons, List.sum_cons]
    omega
end

end Merge

end Mixins
