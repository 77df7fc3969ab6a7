import Mixins.Proofs.Attempt
import Mixins.Proofs.Pool.Answers

/-!
# A pool only grows

Loads make types resident, and a merge puts an extended type in place of the one that it extends.
What is resident stays, and is only extended.

* `Grows` — what every operation leaves of the resident types.
* `load_grows`, `put_grows` — loads, and puts of an extended type.
* `writeBack_grows` — writing back, and what is written.
* `Extends` — what a pool has, seen from what it had before.
-/

namespace Mixins.Pool

variable {files files' : FileTree} {p p' q r : Pool} {name outer : String} {t : TypeDef}

/-- Whether each resident type has at most been extended. -/
def Grows (p q : Pool) : Prop :=
  ∀ outer t, p.residentType? outer = some t → ∃ t', q.residentType? outer = some t' ∧ t.Extends t'

theorem Grows.refl (p : Pool) : p.Grows p := fun _ t h => ⟨t, h, .refl t⟩

theorem Grows.trans (h : p.Grows q) (h' : q.Grows r) : p.Grows r := by
  intro outer t ht
  obtain ⟨t', ht', hext⟩ := h outer t ht
  obtain ⟨t'', ht'', hext'⟩ := h' outer t' ht'
  exact ⟨t'', ht'', hext.trans hext'⟩

theorem withResident_grows (h : p.withResident files name = .ok p') : p.Grows p' := by
  unfold withResident at h
  cases hresident : p.residentType? (Name.outermost name) with
  | some t =>
    simp only [hresident, pure_eq_ok] at h
    exact h ▸ .refl p
  | none =>
    simp only [hresident, bind_eq_ok] at h
    obtain ⟨found, -, h⟩ := h
    cases found with
    | none => cases h
    | some t =>
      simp only [pure_eq_ok] at h
      subst h
      intro outer x hx
      have hother : outer ≠ Name.outermost name := by
        rintro rfl
        rw [hresident] at hx
        cases hx
      refine ⟨x, ?_, .refl x⟩
      simp only [residentType?, List.lookup_cons, beq_false_of_ne hother]
      exact hx

theorem load_grows (files : FileTree) (p : Pool) (name : String) :
    p.Grows (p.load files name).2 := by
  unfold load
  cases h : p.withResident files name with
  | error cause => exact .refl p
  | ok p' =>
    have hgrows := withResident_grows h
    dsimp only
    split
    · exact hgrows
    · exact hgrows

/-- **An extended type** put in place of the one that it extends. -/
theorem put_grows {t' : TypeDef}
    (h : (p.residentType? (Name.outermost name)).bind (·.descendant? (Name.chain name)) = some t)
    (hext : t.Extends t') : p.Grows (p.put name t') := by
  intro outer whole hwhole
  refine ⟨replaceAt name t' outer whole, by rw [residentType?_put, hwhole, Option.map_some], ?_⟩
  unfold replaceAt
  split
  · rename_i houter
    subst houter
    rw [hwhole, Option.bind_some] at h
    cases hnew : whole.modifyDescendant? (fun _ => t') (Name.chain name) with
    | none => exact .refl whole
    | some whole' =>
      refine .modifyDescendant? (fun x hx => ?_) hnew
      rw [h, Option.some.injEq] at hx
      exact hx ▸ hext
  · exact .refl whole

/-- **Writing back** writes the type that is resident in the end, or nothing. -/
theorem writeBack_grows {root : OutputRoot} {done : Except Failure Path}
    (h : p.writeBack files name root = (done, p', files')) :
    p.Grows p' ∧ ((done.toOption = none ∧ files' = files) ∨
      ∃ t, p'.residentType? (Name.outermost name) = some t ∧
        root.write files t = (files', done)) := by
  unfold writeBack at h
  cases hresident : p.withResident files name with
  | error cause =>
    simp only [hresident, Prod.mk.injEq] at h
    obtain ⟨rfl, rfl, rfl⟩ := h
    exact ⟨.refl p, .inl ⟨rfl, rfl⟩⟩
  | ok p₁ =>
    have hgrows := withResident_grows hresident
    simp only [hresident] at h
    cases ht : p₁.residentType? (Name.outermost name) with
    | none =>
      simp only [ht, Prod.mk.injEq] at h
      obtain ⟨rfl, rfl, rfl⟩ := h
      exact ⟨hgrows, .inl ⟨rfl, rfl⟩⟩
    | some t =>
      cases hwrite : root.write files t with
      | mk files₁ written =>
        simp only [ht, hwrite, Prod.mk.injEq] at h
        obtain ⟨rfl, rfl, rfl⟩ := h
        exact ⟨hgrows, .inr ⟨t, ht, hwrite⟩⟩

/-! ## Back to what a pool had -/

/-- Whether all that the second pool has is what the first one has, at most extended. -/
def Extends (files : FileTree) (p q : Pool) : Prop :=
  ∀ outer t, q.type? files outer = .ok (some t) →
    ∃ t₀, p.type? files outer = .ok (some t₀) ∧ t₀.Extends t

theorem Extends.ofAgree (h : ∀ on, Agree files on q p) : Extends files p q :=
  fun outer t ht => ⟨t, ((h fun _ => True).types outer trivial).symm.trans ht, .refl t⟩

theorem Extends.trans (h : Extends files p q) (h' : Extends files q r) : Extends files p r := by
  intro outer t ht
  obtain ⟨t₁, ht₁, hext⟩ := h' outer t ht
  obtain ⟨t₀, ht₀, hext₀⟩ := h outer t₁ ht₁
  exact ⟨t₀, ht₀, hext₀.trans hext⟩

theorem put_extends {t' : TypeDef} (h : p.current? name = some t) (hext : t.Extends t') :
    Extends files p (p.put name t') := by
  intro outer x hx
  cases hwhole : p.residentType? outer with
  | some whole =>
    obtain ⟨whole', hput, hgrown⟩ := put_grows h hext outer whole hwhole
    rw [type?_of_resident hput, Except.ok.injEq, Option.some.injEq] at hx
    exact ⟨whole, type?_of_resident hwhole, hx ▸ hgrown⟩
  | none =>
    have hput : (p.put name t').residentType? outer = none := by
      rw [residentType?_put, hwhole, Option.map_none]
    refine ⟨x, ?_, .refl x⟩
    rw [type?, hput] at hx
    rw [type?, hwhole]
    exact hx

end Mixins.Pool
