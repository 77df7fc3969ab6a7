import Mixins.Proofs.Descendant
import Mixins.Proofs.Module
import Mixins.Variant

/-!
# What a union does

* `mem_collect`, `collect_cons` — the variants that the modules have.
* `unite?_eq_some` — the united type extends the outermost type around the first variant, and
  outside the variant it is that type.
* `writeUnion_uniting` — what uniting a type can come to.
-/

namespace Mixins.Variant

open TypeDef

variable {files files' : FileTree} {interfaceName name : String} {classpath : Classpath}

/-! ## Collecting -/

/-- A module whose answer holds the type comes before the modules that are asked later. -/
theorem collect_cons {m : Module} {outer : TypeDef} (rest : Classpath)
    (hfound : (m.loadOutermost? files name).1 = .ok (some outer))
    (hpart : (outer.descendant? (Name.chain name)).isSome) :
    ∃ label, (collect files name (m :: rest)).1 =
      ⟨label, outer⟩ :: (collect files name rest).1 := by
  cases hload : m.loadOutermost? files name with
  | mk found m' =>
    rw [hload] at hfound
    dsimp only at hfound
    subst hfound
    exact ⟨m'.label, by simp only [collect, hload, hpart, if_true]⟩

/-- After a module that cannot be read, none is asked. -/
theorem collect_failed {m : Module} {cause : Failure} (rest : Classpath)
    (hfailed : (m.loadOutermost? files name).1 = .error cause) :
    (collect files name (m :: rest)).2.1 = some cause := by
  cases hload : m.loadOutermost? files name with
  | mk found m' =>
    rw [hload] at hfailed
    dsimp only at hfailed
    subst hfailed
    simp only [collect, hload]

theorem collect_follows (files : FileTree) (name : String) (classpath : Classpath) :
    classpath.Follows (collect files name classpath).2.2 := by
  induction classpath with
  | nil => exact .nil
  | cons m rest ih =>
    have hasked := Module.loadOutermost?_follows files m name
    cases hload : m.loadOutermost? files name with
    | mk found m' =>
      rw [hload] at hasked
      cases found with
      | error cause =>
        simp only [collect, hload]
        exact .cons hasked (Classpath.Follows.refl rest)
      | ok found =>
        cases found with
        | none =>
          simp only [collect, hload]
          exact .cons hasked ih
        | some outer =>
          simp only [collect, hload]
          split
          · exact .cons hasked ih
          · exact .cons hasked ih

/-- Each variant is the answer of a module, and holds the type. -/
theorem mem_collect {v : Variant} (hv : v ∈ (collect files name classpath).1) :
    (v.outer.descendant? (Name.chain name)).isSome ∧
      ∃ m ∈ classpath, (m.loadOutermost? files name).1 = .ok (some v.outer) := by
  induction classpath with
  | nil => cases hv
  | cons m rest ih =>
    have hrest : v ∈ (collect files name rest).1 → (v.outer.descendant? (Name.chain name)).isSome ∧
        ∃ m' ∈ m :: rest, (m'.loadOutermost? files name).1 = .ok (some v.outer) := by
      intro hv
      obtain ⟨hpart, m', hm', hfound⟩ := ih hv
      exact ⟨hpart, m', List.mem_cons_of_mem m hm', hfound⟩
    cases hload : m.loadOutermost? files name with
    | mk found m' =>
      cases found with
      | error cause => simp [collect, hload] at hv
      | ok found =>
        cases found with
        | none =>
          simp only [collect, hload] at hv
          exact hrest hv
        | some outer =>
          simp only [collect, hload] at hv
          split at hv
          · rename_i hpart
            rcases List.mem_cons.1 hv with rfl | hv
            · exact ⟨hpart, m, List.mem_cons_self, by rw [hload]⟩
            · exact hrest hv
          · exact hrest hv

/-! ## Uniting -/

theorem mergeAll_extends (interfaceName : String) (chain : List String) (target : TypeDef)
    (variants : List Variant) :
    target.Extends (mergeAll interfaceName chain target variants).target := by
  have hfold : ∀ (mixins : List TypeDef) (p : Merge.Progress),
      p.target.Extends (mixins.foldl
        (fun p mixin => p.target.mergeMixin interfaceName mixin p.outcome) p).target := by
    intro mixins
    induction mixins with
    | nil => exact fun p => .refl p.target
    | cons mixin mixins ih =>
      exact fun p => (Merge.merge_extends interfaceName mixin p).trans (ih _)
  exact hfold _ ⟨target, .zero⟩

/-- **The united type** extends the outermost type around the first variant. What does not lie in
the variant is as it was there. -/
theorem unite?_eq_some {chain : List String} {first : Variant} {others : List Variant} {t : TypeDef}
    {outcome : Outcome} (h : unite? interfaceName chain first others = some (t, outcome)) :
    first.outer.Extends t ∧ ∀ path, ¬ chain <+: path →
      (t.descendant? path).map (·.toDeclaration) =
        (first.outer.descendant? path).map (·.toDeclaration) := by
  unfold unite? at h
  cases hpart : first.outer.descendant? chain with
  | none => simp [hpart] at h
  | some part =>
    have hextends := mergeAll_extends interfaceName chain part others
    have honly : ∀ x, first.outer.descendant? chain = some x → x = part :=
      fun x hx => Option.some.inj (hx.symm.trans hpart)
    simp only [hpart, Option.bind_eq_bind, Option.bind_some, Option.bind_eq_some_iff] at h
    obtain ⟨t', ht', h⟩ := h
    cases h
    refine ⟨.modifyDescendant? (fun x hx => honly x hx ▸ hextends) ht', fun path hpath => ?_⟩
    exact declaration_modifyDescendant? (fun x hx => honly x hx ▸ hextends.name) ht' hpath

theorem unite?_name {first : Variant} {others : List Variant} {t : TypeDef} {outcome : Outcome}
    (hhonest : ∀ m ∈ classpath, m.Honest)
    (hvariants : (collect files name classpath).1 = first :: others)
    (h : unite? interfaceName (Name.chain name) first others = some (t, outcome)) :
    t.name = Name.outermost name := by
  obtain ⟨-, m, hm, hfound⟩ := mem_collect (hvariants ▸ List.mem_cons_self : first ∈ _)
  exact (unite?_eq_some h).1.name.trans (Module.loadOutermost?_name (hhonest m hm) hfound)

/-- What uniting a type can come to: the report and the files in the end. -/
inductive Uniting (interfaceName : String) (root : OutputRoot) (name : String)
    (classpath : Classpath) (files : FileTree) : UnionReport → FileTree → Prop
  /-- Some module cannot be read, or there are too few variants. -/
  | idle {report : UnionReport} (nothing : report.written = none) :
      Uniting interfaceName root name classpath files report files
  /-- The file cannot be written. -/
  | unwritten {first : Variant} {others : List Variant} {t : TypeDef} {outcome : Outcome}
      {cause : Failure} {files' : FileTree} {report : UnionReport}
      (variants : (collect files name classpath).1 = first :: others)
      (united : unite? interfaceName (Name.chain name) first others = some (t, outcome))
      (write : root.write files t = (files', .error cause)) (nothing : report.written = none) :
      Uniting interfaceName root name classpath files report files'
  | written {first : Variant} {others : List Variant} {t : TypeDef} {outcome : Outcome}
      {path : Path} {files' : FileTree} {report : UnionReport}
      (readable : (collect files name classpath).2.1 = none)
      (variants : (collect files name classpath).1 = first :: others)
      (united : unite? interfaceName (Name.chain name) first others = some (t, outcome))
      (write : root.write files t = (files', .ok path)) (told : report.written = some path) :
      Uniting interfaceName root name classpath files report files'

/-- **What uniting a type can come to.** Whatever it is, the modules remember what they were asked
for. -/
theorem writeUnion_uniting (interfaceName : String) (root : OutputRoot) (name : String)
    (classpath : Classpath) (files : FileTree) :
    Uniting interfaceName root name classpath files
      (writeUnion interfaceName root name classpath files).1
      (writeUnion interfaceName root name classpath files).2.2 ∧
    (writeUnion interfaceName root name classpath files).2.1 =
      (collect files name classpath).2.2 := by
  unfold writeUnion
  cases hcollect : collect files name classpath with
  | mk variants rest =>
    obtain ⟨cause, classpath'⟩ := rest
    cases cause with
    | some cause => exact ⟨.idle rfl, rfl⟩
    | none =>
      match variants with
      | [] => exact ⟨.idle rfl, rfl⟩
      | [_] => exact ⟨.idle rfl, rfl⟩
      | first :: second :: others =>
        have hvariants : (collect files name classpath).1 = first :: second :: others := by
          rw [hcollect]
        dsimp only
        cases hunite : unite? interfaceName (Name.chain name) first (second :: others) with
        | none => exact ⟨.idle rfl, rfl⟩
        | some united =>
          obtain ⟨t, outcome⟩ := united
          dsimp only
          cases hwrite : root.write files t with
          | mk files' written =>
            cases written with
            | error cause => exact ⟨.unwritten hvariants hunite hwrite rfl, rfl⟩
            | ok path => exact ⟨.written (by rw [hcollect]) hvariants hunite hwrite rfl, rfl⟩

end Mixins.Variant
