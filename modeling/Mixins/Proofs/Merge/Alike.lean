import Mixins.Proofs.Merge.Prepared
import Mixins.Proofs.Pool.Alike

/-!
# What the work on a target depends on

The preparation of a target asks the pool for the target and its mixins, and for nothing else. So it
comes to the same in two pools that have the same types under the outermost names of these.

* `mergeAll_alike`, `prepare_alike` — the work in two pools that have the same types.
* `prepare_resident` — it makes nothing else resident.
* `error_of_type?` — what is reported of a target that has no type.
-/

namespace Mixins.Merge

open Pool (Alike)

variable {files files' : FileTree} {interfaceName target : String} {mixins : List String}
  {p q : Pool} {on : String → Prop}

/-- **Merging mixins** comes to the same in pools that have the same types. -/
theorem mergeAll_alike (h : Alike files files' on p q)
    (hon : ∀ name ∈ target :: mixins, on (Name.outermost name)) (interfaceName : String)
    (outcome : Outcome) : ∃ p' q', Alike files files' on p' q' ∧ ∃ merged counted,
      mergeAll files interfaceName target mixins p outcome = (merged, p', counted) ∧
      mergeAll files' interfaceName target mixins q outcome = (merged, q', counted) := by
  induction mixins generalizing p q outcome with
  | nil => exact ⟨p, q, h, .ok (), outcome, rfl, rfl⟩
  | cons mixinName mixins ih =>
    obtain ⟨htarget, hmixin, hmixins⟩ : on (Name.outermost target) ∧
        on (Name.outermost mixinName) ∧ ∀ name ∈ mixins, on (Name.outermost name) := by
      simpa using hon
    obtain ⟨p₁, q₁, h₁, ⟨cause, hp, hq⟩ | ⟨mixin, -, hp, hq, -⟩⟩ := h.load hmixin
    · exact ⟨p₁, q₁, h₁, .error cause, outcome, by rw [mergeAll, hp], by rw [mergeAll, hq]⟩
    · obtain ⟨p₂, q₂, h₂, ⟨cause, hp', hq'⟩ | ⟨t, whole, hp', hq', hwhole, hwhole'⟩⟩ :=
        h₁.load htarget
      · exact ⟨p₂, q₂, h₂, .error cause, outcome, by simp [mergeAll, hp, hp'],
          by simp [mergeAll, hq, hq']⟩
      · simp only [mergeAll, hp, hp', hq, hq']
        exact ih (h₂.put hwhole hwhole' _) (List.forall_mem_cons.2 ⟨htarget, hmixins⟩) _

/-- The digest of a type that both pools have. -/
theorem poolDigest_alike (h : Alike files files' on p q) (hon : on (Name.outermost target)) :
    ∃ p' q', Alike files files' on p' q' ∧
      ((∃ cause, poolDigest files p target = (.error cause, p') ∧
          poolDigest files' q target = (.error cause, q')) ∨
        ∃ digest whole, poolDigest files p target = (.ok digest, p') ∧
          poolDigest files' q target = (.ok digest, q') ∧
          p'.residentType? (Name.outermost target) = some whole ∧
          q'.residentType? (Name.outermost target) = some whole) := by
  obtain ⟨p', q', h', ⟨cause, hp, hq⟩ | ⟨t, whole, hp, hq, hwhole, hwhole'⟩⟩ := h.load hon
  · exact ⟨p', q', h', .inl ⟨cause, by simp [poolDigest, hp, Except.bind],
      by simp [poolDigest, hq, Except.bind]⟩⟩
  · refine ⟨p', q', h', ?_⟩
    simp only [poolDigest, hp, hq, Except.bind]
    cases t.digest with
    | error cause => exact .inl ⟨cause, rfl, rfl⟩
    | ok digest => exact .inr ⟨digest, whole, rfl, rfl, hwhole, hwhole'⟩

/-- **The preparation** comes to the same in pools that have the same types: the same report, and
the same type to be written. -/
theorem prepare_alike (h : Alike files files' on p q)
    (hon : ∀ name ∈ target :: mixins, on (Name.outermost name)) (interfaceName : String) :
    let done := prepare files interfaceName target mixins p
    let done' := prepare files' interfaceName target mixins q
    done.1 = done'.1 ∧ done.2.2 = done'.2.2 ∧ Alike files files' on done.2.1 done'.2.1 := by
  have htarget := hon target List.mem_cons_self
  obtain ⟨p₁, q₁, h₁, ⟨cause, hp, hq⟩ | ⟨digest, -, hp, hq, -⟩⟩ := poolDigest_alike h htarget
  · simp only [prepare, hp, hq]
    exact ⟨trivial, trivial, h₁⟩
  · obtain ⟨p₂, q₂, h₂, merged, counted, hall, hall'⟩ := mergeAll_alike h₁ hon interfaceName .zero
    cases merged with
    | error cause =>
      simp only [prepare, hp, hq, hall, hall']
      exact ⟨trivial, trivial, h₂⟩
    | ok _ =>
      obtain ⟨p₃, q₃, h₃, ⟨cause, hp', hq'⟩ | ⟨digest', whole, hp', hq', hwhole, hwhole'⟩⟩ :=
        poolDigest_alike h₂ htarget
      · simp only [prepare, hp, hq, hall, hall', hp', hq']
        exact ⟨trivial, trivial, h₃⟩
      · simp only [prepare, hp, hq, hall, hall', hp', hq', hwhole, hwhole']
        exact ⟨trivial, trivial, h₃⟩

/-- **Nothing else becomes resident** than what the preparation asks for. -/
theorem prepare_resident (files : FileTree) (interfaceName target : String) (mixins : List String)
    (p : Pool) {outer : String} (houter : ∀ name ∈ target :: mixins, outer ≠ Name.outermost name) :
    (prepare files interfaceName target mixins p).2.1.residentType? outer =
      p.residentType? outer := by
  have hcarries : Carries files target (target :: mixins)
      fun p q => q.residentType? outer = p.residentType? outer :=
    { refl := fun _ => rfl
      trans := fun _ _ _ h h' => h'.trans h
      load := fun name hname p => Pool.residentType?_load_of_ne files p (houter name hname)
      put := fun p _ t _ _ =>
        Pool.residentType?_put_of_ne p (houter target List.mem_cons_self) t }
  exact prepare_carries hcarries interfaceName p

/-! ## Targets that cannot be loaded -/

/-- The work on a target that cannot be loaded. -/
theorem mergeMixins_of_load {root : OutputRoot} {cause : Failure}
    (h : (p.load files target).1 = .error cause) (interfaceName : String) (mixins : List String) :
    (mergeMixins interfaceName root target mixins p files).1 =
      failed ⟨target, mixins, .zero, none, none, none, none⟩ cause := by
  unfold mergeMixins poolDigest
  cases hload : p.load files target with
  | mk found reached =>
    rw [hload] at h
    obtain rfl : found = .error cause := h
    rfl

/-- **The error** of a target whose type file is missing, or cannot be read. -/
theorem error_of_type? (houter : Name.outermost target = target) (root : OutputRoot)
    (interfaceName : String) (mixins : List String) :
    (p.type? files target = .ok none →
        (mergeMixins interfaceName root target mixins p files).1.error =
          some (Failure.notFound target).message) ∧
      ∀ cause, p.type? files target = .error cause →
        (mergeMixins interfaceName root target mixins p files).1.error = some cause.message := by
  have hload : ∀ cause, Pool.answer target (p.type? files target) = .error cause →
      (mergeMixins interfaceName root target mixins p files).1.error = some cause.message := by
    intro cause hcause
    rw [mergeMixins_of_load (by rw [Pool.load_fst, houter, hcause])]
    rfl
  refine ⟨fun hnone => hload _ ?_, fun cause herror => hload _ ?_⟩
  · rw [hnone]
    rfl
  · rw [herror]
    rfl

end Mixins.Merge
