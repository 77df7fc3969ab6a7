import Mixins.Proofs.Pool.Classpath

/-!
# What a module that is not behind its files answers

Such a module answers from the file of the outermost type, be it decoded now or before. It stays so,
whatever it is asked, as long as the files stay as they are.

* `readOutermost?_eq_some_iff` — the file declares the type.
* `load_eq_ok_iff`, `UpToDate.load_eq_ok_iff` — the type that is asked for is in the outermost type,
  which is the one in that file.
* `UpToDate.loadOutermost?`, `UpToDate.load` — nor is the module behind its files after a question.
-/

namespace Mixins

variable {files : FileTree} {name : String}

/-- Where a type was read does not matter to what it is. -/
theorem TypeDef.ofBytes_eq_ok_iff {content : Utf8.Bytes} {context : String} {t : TypeDef} :
    ofBytes content context = .ok t ↔ Wire.complete (decode Wire.maxDepth) content = .ok t :=
  mapError_eq_ok

namespace Module

theorem readOutermost?_eq_some_iff {source : Source} {outer : String} {t : TypeDef} :
    readOutermost? files source outer = .ok (some t) ↔
      ∃ content, source.typeBytes? files outer = .ok (some content) ∧
        TypeDef.ofBytes content (source.context outer) = .ok t ∧ t.name = outer := by
  unfold readOutermost?
  simp only [bind_eq_ok]
  constructor
  · rintro ⟨found, hfile, h⟩
    cases found with
    | none => cases h
    | some content =>
      simp only [bind_eq_ok] at h
      obtain ⟨t', hdecoded, h⟩ := h
      split at h
      · cases h
        exact ⟨content, hfile, hdecoded, ‹_›⟩
      · cases h
  · rintro ⟨content, hfile, hdecoded, hname⟩
    refine ⟨some content, hfile, ?_⟩
    simp only [bind_eq_ok]
    exact ⟨t, hdecoded, if_pos hname⟩

/-- **What a module answers** is in the outermost type. -/
theorem load_eq_ok_iff {m : Module} {t : TypeDef} : (m.load files name).1 = .ok t ↔
    ∃ whole, (m.loadOutermost? files name).1 = .ok (some whole) ∧
      whole.descendant? (Name.chain name) = some t := by
  rw [load_answer, Pool.answer_eq_ok_iff]

/-- What a module answers that is not behind its files is in the file of the outermost type. -/
theorem UpToDate.load_eq_ok_iff {m : Module} (h : m.UpToDate files) {t : TypeDef} :
    (m.load files name).1 = .ok t ↔
      ∃ whole, readOutermost? files m.source (Name.outermost name) = .ok (some whole) ∧
        whole.descendant? (Name.chain name) = some t := by
  rw [load_fst h, Pool.answer_eq_ok_iff]

/-- **A question leaves** the module as little behind its files as it was. -/
theorem UpToDate.loadOutermost? {m : Module} (h : m.UpToDate files) (name : String) :
    (m.loadOutermost? files name).2.UpToDate files := by
  rcases loadOutermost?_cases files m name with ⟨t, -, hload⟩ | ⟨-, ⟨t, hread, hload⟩ |
    ⟨found, -, -, hload⟩⟩
  · rwa [hload]
  · rw [hload]
    intro outer t' hknown
    by_cases houter : outer = Name.outermost name
    · subst houter
      rw [List.lookup_cons_self] at hknown
      rwa [← Option.some.inj hknown]
    · rw [List.lookup_cons, beq_false_of_ne houter] at hknown
      exact h outer t' hknown
  · rwa [hload]

theorem UpToDate.load {m : Module} (h : m.UpToDate files) (name : String) :
    (m.load files name).2.UpToDate files := by
  rw [load_snd]
  exact h.loadOutermost? name

end Module

end Mixins
