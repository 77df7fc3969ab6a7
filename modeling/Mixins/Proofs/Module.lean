import Mathlib.Data.List.Forall2
import Mixins.Module
import Mixins.Proofs.Attempt

/-!
# What a module answers

A module checks the name of each type that it decodes. What it remembers are therefore types under
their own names, and so are its answers.

* `Honest` — a module that remembers types under their own names.
* `loadOutermost?_name` — its answers have the right names.
* `loadOutermost?_follows` — it still remembers types under their own names after a question.
* `Classpath.load_follows` — so do all modules of a classpath.
-/

namespace Mixins

namespace Module

variable {files : FileTree} {m m' : Module} {name : String}

/-- Whether what the module remembers stands under its own name. -/
def Honest (m : Module) : Prop := ∀ e ∈ m.known, e.2.name = e.1

theorem honest_ofSource (source : Source) : (ofSource source).Honest :=
  fun _ h => nomatch h

theorem readOutermost?_name {source : Source} {outer : String} {t : TypeDef}
    (h : readOutermost? files source outer = .ok (some t)) : t.name = outer := by
  simp only [readOutermost?, bind_eq_ok] at h
  obtain ⟨found, -, h⟩ := h
  cases found with
  | none => cases h
  | some content =>
    simp only [bind_eq_ok] at h
    obtain ⟨t', -, h⟩ := h
    split at h
    · rename_i hname
      cases h
      exact hname
    · cases h

theorem readOutermost?_of_ok {source : Source} {outer : String} {t : TypeDef} {content : Utf8.Bytes}
    (hfile : source.typeBytes? files outer = .ok (some content))
    (hdecoded : TypeDef.ofBytes content (source.context outer) = .ok t) :
    (∃ cause, readOutermost? files source outer = .error cause) ∨
      readOutermost? files source outer = .ok (some t) := by
  unfold readOutermost?
  rw [hfile, ok_bind]
  dsimp only
  rw [hdecoded, ok_bind]
  by_cases hname : t.name = outer
  · rw [if_pos hname]
    exact .inr rfl
  · rw [if_neg hname]
    exact .inl ⟨_, rfl⟩

/-- What a question does to a module: it remembers what it has read, if anything. -/
theorem loadOutermost?_cases (files : FileTree) (m : Module) (name : String) :
    (∃ t, m.known.lookup (Name.outermost name) = some t ∧
      m.loadOutermost? files name = (.ok (some t), m)) ∨
    m.known.lookup (Name.outermost name) = none ∧
      ((∃ t, readOutermost? files m.source (Name.outermost name) = .ok (some t) ∧
          m.loadOutermost? files name =
            (.ok (some t), { m with known := (Name.outermost name, t) :: m.known })) ∨
        ∃ found, readOutermost? files m.source (Name.outermost name) = found ∧
          (∀ t, found ≠ .ok (some t)) ∧ m.loadOutermost? files name = (found, m)) := by
  unfold loadOutermost?
  dsimp only
  cases hknown : m.known.lookup (Name.outermost name) with
  | some t => exact .inl ⟨t, rfl, rfl⟩
  | none =>
    refine .inr ⟨rfl, ?_⟩
    dsimp only
    cases hread : readOutermost? files m.source (Name.outermost name) with
    | error cause => exact .inr ⟨.error cause, rfl, by simp, rfl⟩
    | ok found =>
      cases found with
      | none => exact .inr ⟨.ok none, rfl, by simp, rfl⟩
      | some t => exact .inl ⟨t, rfl, rfl⟩

theorem loadOutermost?_name (hm : m.Honest) {t : TypeDef}
    (h : (m.loadOutermost? files name).1 = .ok (some t)) : t.name = Name.outermost name := by
  rcases loadOutermost?_cases files m name with ⟨t', hknown, hload⟩ | ⟨-, ⟨t', hread, hload⟩ |
    ⟨found, -, hnone, hload⟩⟩
  · rw [hload] at h
    cases h
    obtain ⟨before, after, hsplit, -⟩ := List.lookup_eq_some_iff.1 hknown
    exact hm (Name.outermost name, t) (hsplit ▸ List.mem_append_right _ List.mem_cons_self)
  · rw [hload] at h
    cases h
    exact readOutermost?_name hread
  · rw [hload] at h
    exact absurd h (hnone t)

/-! ## After questions -/

/-- What being asked leaves of a module. -/
structure Follows (m m' : Module) : Prop where
  source : m'.source = m.source
  honest : m.Honest → m'.Honest

theorem Follows.refl (m : Module) : m.Follows m := ⟨rfl, id⟩

theorem Follows.trans {m'' : Module} (h : m.Follows m') (h' : m'.Follows m'') : m.Follows m'' :=
  ⟨h'.source.trans h.source, fun hm => h'.honest (h.honest hm)⟩

theorem loadOutermost?_follows (files : FileTree) (m : Module) (name : String) :
    m.Follows (m.loadOutermost? files name).2 := by
  rcases loadOutermost?_cases files m name with ⟨t, -, h⟩ | ⟨-, ⟨t, hread, h⟩ | ⟨found, -, -, h⟩⟩
  · rw [h]
    exact .refl m
  · rw [h]
    refine ⟨rfl, fun hm e he => ?_⟩
    rcases List.mem_cons.1 he with rfl | he
    · exact readOutermost?_name hread
    · exact hm e he
  · rw [h]
    exact .refl m

/-- A question for a type leaves what the question for its outermost type leaves. -/
theorem load_snd (files : FileTree) (m : Module) (name : String) :
    (m.load files name).2 = (m.loadOutermost? files name).2 := by
  unfold load
  cases m.loadOutermost? files name with
  | mk found m' =>
    cases found with
    | error cause => rfl
    | ok found =>
      dsimp only
      split <;> rfl

theorem load_follows (files : FileTree) (m : Module) (name : String) :
    m.Follows (m.load files name).2 := by
  rw [load_snd]
  exact loadOutermost?_follows files m name

end Module

namespace Classpath

variable {classpath classpath' classpath'' : Classpath}

/-- What being asked leaves of a classpath, module by module. -/
def Follows (classpath classpath' : Classpath) : Prop :=
  List.Forall₂ Module.Follows classpath classpath'

theorem Follows.refl (classpath : Classpath) : classpath.Follows classpath :=
  List.forall₂_same.2 fun m _ => .refl m

theorem Follows.trans (h : classpath.Follows classpath') (h' : classpath'.Follows classpath'') :
    classpath.Follows classpath'' := by
  induction h generalizing classpath'' with
  | nil => exact h'
  | cons hm _ ih =>
    cases h' with
    | cons hm' hrest => exact .cons (hm.trans hm') (ih hrest)

theorem Follows.honest (h : classpath.Follows classpath') (hhonest : ∀ m ∈ classpath, m.Honest) :
    ∀ m ∈ classpath', m.Honest := by
  induction h with
  | nil => exact hhonest
  | cons hm _ ih =>
    rw [List.forall_mem_cons] at hhonest ⊢
    exact ⟨hm.honest hhonest.1, ih hhonest.2⟩

theorem load_follows (files : FileTree) (name : String) (classpath : Classpath) :
    classpath.Follows (classpath.load files name).2 := by
  induction classpath with
  | nil => exact .nil
  | cons m rest ih =>
    have hasked := m.load_follows files name
    unfold load
    cases hload : m.load files name with
    | mk found m' =>
      rw [hload] at hasked
      cases found with
      | ok t => exact .cons hasked (Follows.refl rest)
      | error cause =>
        dsimp only
        split
        · exact .cons hasked ih
        · exact .cons hasked (Follows.refl rest)

end Classpath

end Mixins
