import Mixins.Proofs.Module.Addressed

/-!
# The name of an answer

A module checks the name of an outermost type alone. From there it goes by declared names and passes
over empty segments. So an answer has the name that was asked for if the types on the way are named
after one another and no segment is empty; a module does answer for a name that no type has.

* `Honest.name_of_load` — the name of what a module answers that remembers types under their names.
* `load_named` — so it is for a module that was asked whatever questions before.
* `load_otherName` — both conditions are needed.
-/

namespace Mixins

namespace TypeDef

/-- A path ends at a type declared with its last segment. -/
theorem innerName_of_descendant? {path : List String} {inner : String} {t x : TypeDef}
    (hx : t.descendant? path = some x) (hlast : path.getLast? = some inner) :
    x.innerName = inner := by
  induction path generalizing t with
  | nil => cases hlast
  | cons segment path ih =>
    rw [descendant?, Option.bind_eq_some_iff] at hx
    obtain ⟨n, hn, hx⟩ := hx
    cases path with
    | nil =>
      obtain ⟨-, hinner⟩ := nestedType?_some hn
      rw [descendant?, Option.some.injEq] at hx
      rw [List.getLast?_singleton, Option.some.injEq] at hlast
      rw [← hx, hinner, hlast]
    | cons next path =>
      rw [List.getLast?_cons_cons] at hlast
      exact ih hx hlast

end TypeDef

namespace Module

variable {files : FileTree} {source : Source} {name : String} {t : TypeDef}

/-- A module that was opened and asked for types, each time with the files as they then were. -/
def afterQuestions (source : Source) (questions : List (FileTree × String)) : Module :=
  questions.foldl (fun m question => (m.load question.1 question.2).2) (ofSource source)

theorem honest_afterQuestions (source : Source) (questions : List (FileTree × String)) :
    (afterQuestions source questions).Honest :=
  List.foldlRecOn questions _ (honest_ofSource source)
    fun m hm question _ => (load_follows question.1 m question.2).honest hm

/-- Where the types on the way are named after one another, the answer has the name that was asked
for as long as no segment is empty, and only then. -/
theorem Honest.name_of_load {m : Module} (hm : m.Honest) {whole : TypeDef}
    (hwhole : (m.loadOutermost? files name).1 = .ok (some whole))
    (hpart : whole.descendant? (Name.chain name) = some t)
    (hnamed : whole.NamedAlong (Name.chain name)) : t.name = name ↔ "" ∉ Name.segments name := by
  rw [hnamed.name_of_descendant? hpart, loadOutermost?_name hm hwhole,
    Name.below_outermost_chain_iff]

/-- **The name of an answer.** Whatever a module was asked before, and whatever files there were
then and are now: its answer stands where the segments of the name lead from the outermost type,
which has the outermost name. If the types entered on the way are named after one another, the
answer has the name that was asked for exactly if no segment of it is empty. -/
theorem load_named {questions : List (FileTree × String)}
    (h : ((afterQuestions source questions).load files name).1 = .ok t) :
    ∃ whole, ((afterQuestions source questions).loadOutermost? files name).1 = .ok (some whole) ∧
      whole.name = Name.outermost name ∧
      whole.descendant? (Name.chain name) = some t ∧
      (∀ inner, (Name.chain name).getLast? = some inner → t.innerName = inner) ∧
      (Name.isOutermost name = true → t.name = name) ∧
      (whole.NamedAlong (Name.chain name) → (t.name = name ↔ "" ∉ Name.segments name)) := by
  have hm := honest_afterQuestions source questions
  obtain ⟨whole, hwhole, hpart⟩ := load_eq_ok_iff.1 h
  have hname := loadOutermost?_name hm hwhole
  refine ⟨whole, hwhole, hname, hpart, fun _ hlast => TypeDef.innerName_of_descendant? hpart hlast,
    fun houter => ?_, hm.name_of_load hwhole hpart⟩
  rw [Name.chain_of_isOutermost houter, TypeDef.descendant?, Option.some.injEq] at hpart
  rw [← hpart, hname, Name.isOutermost_iff.1 houter]

/-- A type two levels down, asked for by its name when its file is gone. -/
theorem load_named_nestedTwice :
    let m := afterQuestions (.directory ⟨"m"⟩) [(nestedTwiceTree, "u.$N")]
    let innermost := TypeDef.bare "u.$N$I$J" .enumType
    (m.load .empty "u.$N$I$J").1 = .ok innermost ∧ innermost.name = "u.$N$I$J" := by
  intro m innermost
  have hload : (m.load .empty "u.$N$I$J").1 = .ok innermost := by decide +kernel
  have hremembered : (m.loadOutermost? .empty "u.$N$I$J").1 = .ok (some nestedTwice) := by
    decide +kernel
  have hwellNamed : nestedTwice.WellNamed := by decide +kernel
  obtain ⟨whole, hwhole, -, -, -, -, hname⟩ := load_named hload
  have heq : whole = nestedTwice := Option.some.inj (Except.ok.inj (hwhole.symm.trans hremembered))
  subst heq
  exact ⟨hload, (hname (hwellNamed.namedAlong _)).2 (by decide)⟩

/-- The module in the directory `m` that has the type in its file. -/
def answerOf (t : TypeDef) (name : String) : Except Failure TypeDef :=
  ((ofSource (.directory ⟨"m"⟩)).load (OutputRoot.storing [(⟨⟨"m"⟩⟩, t)]) name).1

/-- A module answers for a name with an empty segment with the type that is named without it, and
for the name of a nested type with one that is declared with that name but named after another type.
-/
theorem load_otherName :
    let nested := TypeDef.bare "u.N$I" .classType
    let stray := TypeDef.bare "v.X$I" .classType
    (answerOf { TypeDef.bare "u.N" .classType with nested := [nested] } "u.N$$I" = .ok nested ∧
      nested.name ≠ "u.N$$I") ∧
    answerOf { TypeDef.bare "u.N" .classType with nested := [stray] } "u.N$I" = .ok stray ∧
      stray.name ≠ "u.N$I" := by
  decide +kernel

end Module

end Mixins
