import Mixins.Proofs.Pool.Classpath

/-!
# Answers that do not depend on earlier questions

A module remembers what it has read and nothing else, and what it remembers it would read again. As
long as the files stay as they are, no question changes the answer to another, whether the two are
about the same type or not, and whether they succeed or fail.

* `Module.loadOutermost?_later`, `Module.load_later` — for a module.
* `Classpath.load_later` — for a classpath.
-/

namespace Mixins

variable {files : FileTree}

namespace Module

/-- A module answers from its memory, and what that lacks from its files. -/
theorem loadOutermost?_fst (files : FileTree) (m : Module) (name : String) :
    (m.loadOutermost? files name).1 =
      match m.known.lookup (Name.outermost name) with
      | some t => .ok (some t)
      | none => readOutermost? files m.source (Name.outermost name) := by
  rcases loadOutermost?_cases files m name with ⟨t, hknown, h⟩ | ⟨hknown, ⟨t, hread, h⟩ |
    ⟨found, hread, -, h⟩⟩
  · rw [h, hknown]
  · rw [h, hknown, hread]
  · rw [h, hknown, hread]

/-- **No question changes** what a module answers to another. -/
theorem loadOutermost?_later (files : FileTree) (m : Module) (asked name : String) :
    ((m.loadOutermost? files asked).2.loadOutermost? files name).1 =
      (m.loadOutermost? files name).1 := by
  rcases loadOutermost?_cases files m asked with ⟨t, -, h⟩ | ⟨hnew, ⟨t, hread, h⟩ |
    ⟨found, -, -, h⟩⟩
  · rw [h]
  · rw [h, loadOutermost?_fst, loadOutermost?_fst]
    by_cases hsame : Name.outermost name = Name.outermost asked
    · simp only [hsame, List.lookup_cons_self, hnew, hread]
    · simp only [List.lookup_cons, beq_false_of_ne hsame]
  · rw [h]

theorem load_later (files : FileTree) (m : Module) (asked name : String) :
    ((m.load files asked).2.load files name).1 = (m.load files name).1 := by
  rw [load_answer, load_answer, load_snd, loadOutermost?_later]

end Module

namespace Classpath

/-- A question goes to the first module, and perhaps on to the others. -/
theorem load_cons_snd (files : FileTree) (name : String) (m : Module) (rest : Classpath) :
    ∃ rest', (rest' = rest ∨ rest' = (load files name rest).2) ∧
      (load files name (m :: rest)).2 = (m.load files name).2 :: rest' := by
  rw [load]
  cases m.load files name with
  | mk found m' =>
    cases found with
    | ok t => exact ⟨rest, .inl rfl, rfl⟩
    | error cause =>
      dsimp only
      split
      · exact ⟨_, .inr rfl, rfl⟩
      · exact ⟨rest, .inl rfl, rfl⟩

/-- **No question changes** what a classpath answers to another. -/
theorem load_later (files : FileTree) (asked name : String) (classpath : Classpath) :
    (load files name (load files asked classpath).2).1 = (load files name classpath).1 := by
  induction classpath with
  | nil => rfl
  | cons m rest ih =>
    obtain ⟨rest', hrest, h⟩ := load_cons_snd files asked m rest
    have hothers : (load files name rest').1 = (load files name rest).1 := by
      rcases hrest with rfl | rfl
      · rfl
      · exact ih
    rw [h, load_cons_fst, load_cons_fst, Module.load_later, hothers]

end Classpath

end Mixins
