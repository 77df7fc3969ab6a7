import Mixins.Proofs.Module
import Mixins.Proofs.OutputRoot
import Mixins.Proofs.Pool.Answers

/-!
# Pools and classpaths

A pool and the classpath that it was made from look for a type in the same modules, but not for the
same thing. The pool goes to the first module that has a file for the outermost type, and answers
for a nested type from there. The classpath goes on to the next module if that file does not hold
the nested type.

* `Module.load_fst` — what a module answers that is not behind its files.
* `load_fresh_iff` — a new pool answers as the classpath does, unless the first file lacks the type.
* `load_fresh_lacking` — where the first file lacks it.
-/

namespace Mixins

open Pool (answer firstType?)

variable {files : FileTree} {name : String}

namespace Module

/-- Whether what the module remembers is what its files hold. -/
def UpToDate (files : FileTree) (m : Module) : Prop :=
  ∀ outer t, m.known.lookup outer = some t → readOutermost? files m.source outer = .ok (some t)

theorem upToDate_ofSource (files : FileTree) (source : Source) : (ofSource source).UpToDate files :=
  fun _ _ h => nomatch h

/-- What a module answers depends on the outermost type alone. -/
theorem load_answer (files : FileTree) (m : Module) (name : String) :
    (m.load files name).1 = answer name (m.loadOutermost? files name).1 := by
  unfold load answer
  cases m.loadOutermost? files name with
  | mk found m' =>
    cases found with
    | error cause => rfl
    | ok found =>
      dsimp only
      cases found.bind (·.descendant? (Name.chain name)) <;> rfl

/-- A module that is not behind its files answers from the file of the outermost type. -/
theorem UpToDate.loadOutermost?_fst {m : Module} (h : m.UpToDate files) (name : String) :
    (m.loadOutermost? files name).1 =
      readOutermost? files m.source (Name.outermost name) := by
  rcases loadOutermost?_cases files m name with ⟨t, hknown, hload⟩ | ⟨-, ⟨t, hread, hload⟩ |
    ⟨found, hread, -, hload⟩⟩
  · rw [hload, h _ t hknown]
  · rw [hload, hread]
  · rw [hload, hread]

/-- **What a module answers** that is not behind its files. -/
theorem load_fst {m : Module} (h : m.UpToDate files) (name : String) :
    (m.load files name).1 =
      answer name (readOutermost? files m.source (Name.outermost name)) := by
  rw [load_answer, h.loadOutermost?_fst]

/-- Whether a file of the module declares the type that it is there for, if it declares a type. -/
def Source.Declares (files : FileTree) (outer : String) (source : Source) : Prop :=
  ∀ content t, source.typeBytes? files outer = .ok (some content) →
    TypeDef.ofBytes content (source.context outer) = .ok t → t.name = outer

theorem Source.declares_iff {outer : String} {source : Source} : source.Declares files outer ↔
    ∀ content ∈ (source.typeBytes? files outer).toOption.join,
      ∀ t ∈ (TypeDef.ofBytes content (source.context outer)).toOption, t.name = outer := by
  simp only [Option.mem_def, Option.join_eq_some_iff, toOption_eq_some]
  exact ⟨fun h content hfile t => h content t hfile, fun h content t hfile => h content hfile t⟩

instance (files : FileTree) (outer : String) (source : Source) :
    Decidable (source.Declares files outer) :=
  decidable_of_iff' _ Source.declares_iff

theorem Source.typeBytes?_error {source : Source} {outer : String} {cause : Failure}
    (h : source.typeBytes? files outer = .error cause) : cause.isNotFound = false := by
  cases source with
  | archive path content => cases h
  | directory root =>
    unfold typeBytes? at h
    dsimp only at h
    split at h
    · cases h
    · cases h
    · cases h
      rfl

end Module

theorem TypeDef.ofBytes_error {content : Utf8.Bytes} {context : String} {cause : Failure}
    (h : TypeDef.ofBytes content context = .error cause) : cause.isNotFound = false := by
  unfold ofBytes at h
  cases hdecoded : Wire.complete (TypeDef.decode Wire.maxDepth) content with
  | error wrong =>
    rw [hdecoded] at h
    cases h
    rfl
  | ok t =>
    rw [hdecoded] at h
    cases h

/-- The classpath answers as its first module does, or if that has not got the type, as the others
do. -/
theorem Classpath.load_cons_fst (files : FileTree) (name : String) (m : Module)
    (rest : Classpath) :
    (load files name (m :: rest)).1 =
      match (m.load files name).1 with
      | .ok t => .ok t
      | .error cause => if cause.isNotFound then (load files name rest).1 else .error cause := by
  rw [load]
  cases m.load files name with
  | mk found m' =>
    cases found with
    | ok t => rfl
    | error cause =>
      dsimp only
      split <;> rfl

namespace Pool

open Mixins.Module (readOutermost?)

/-- What a module that has the file does: it reads what the pool would decode. -/
theorem readOutermost?_of_file {source : Module.Source} {outer : String} {content : Utf8.Bytes}
    (hdeclares : source.Declares files outer)
    (hfile : source.typeBytes? files outer = .ok (some content)) :
    readOutermost? files source outer =
      (TypeDef.ofBytes content (source.context outer)).map some := by
  unfold readOutermost?
  rw [hfile, ok_bind]
  dsimp only
  cases hdecoded : TypeDef.ofBytes content (source.context outer) with
  | error cause => rfl
  | ok t =>
    rw [ok_bind, if_pos (hdeclares content t hfile hdecoded)]
    rfl

/-- Whether the first file for the outermost type, if it can be decoded, holds the type that is
asked for. -/
def FirstHolds (files : FileTree) (name : String) (sources : List Module.Source) : Prop :=
  ∀ before source after content whole, sources = before ++ source :: after →
    (∀ s ∈ before, s.typeBytes? files (Name.outermost name) = .ok none) →
    source.typeBytes? files (Name.outermost name) = .ok (some content) →
    TypeDef.ofBytes content (source.context (Name.outermost name)) = .ok whole →
    (whole.descendant? (Name.chain name)).isSome

theorem firstHolds_cons {source : Module.Source} {sources : List Module.Source}
    (hnone : source.typeBytes? files (Name.outermost name) = .ok none) :
    FirstHolds files name (source :: sources) ↔ FirstHolds files name sources := by
  constructor
  · intro h before found after content whole hsplit hbefore
    exact h (source :: before) found after content whole (by rw [hsplit, List.cons_append])
      (List.forall_mem_cons.2 ⟨hnone, hbefore⟩)
  · intro h before found after content whole hsplit hbefore hfile
    cases before with
    | nil =>
      obtain ⟨rfl, -⟩ := List.cons.inj hsplit
      rw [hnone] at hfile
      cases hfile
    | cons s before =>
      obtain ⟨rfl, hrest⟩ := List.cons.inj hsplit
      exact h before found after content whole hrest (List.forall_mem_cons.1 hbefore).2 hfile

theorem firstHolds_of_file {source : Module.Source} {sources : List Module.Source}
    {content : Utf8.Bytes} {whole : TypeDef}
    (hfile : source.typeBytes? files (Name.outermost name) = .ok (some content))
    (hdecoded : TypeDef.ofBytes content (source.context (Name.outermost name)) = .ok whole) :
    FirstHolds files name (source :: sources) ↔ (whole.descendant? (Name.chain name)).isSome := by
  constructor
  · exact fun h => h [] source sources content whole rfl (fun _ hs => nomatch hs) hfile hdecoded
  · intro h before found after content' whole' hsplit hbefore hfile' hdecoded'
    cases before with
    | nil =>
      obtain ⟨rfl, -⟩ := List.cons.inj hsplit
      rw [hfile, Except.ok.injEq, Option.some.injEq] at hfile'
      subst hfile'
      rw [hdecoded, Except.ok.injEq] at hdecoded'
      exact hdecoded' ▸ h
    | cons s before =>
      obtain ⟨rfl, -⟩ := List.cons.inj hsplit
      rw [hbefore source List.mem_cons_self] at hfile
      cases hfile

/-- **What the first file holds** decides whether the pool finds what the classpath does. -/
theorem answer_firstType?_iff {classpath : Classpath} (hup : ∀ m ∈ classpath, m.UpToDate files)
    (hdeclares : ∀ source ∈ classpath.sources, source.Declares files (Name.outermost name))
    (t : TypeDef) :
    answer name (firstType? files (Name.outermost name) classpath.sources) = .ok t ↔
      (classpath.load files name).1 = .ok t ∧ FirstHolds files name classpath.sources := by
  induction classpath with
  | nil => simp [Classpath.sources, firstType?, answer, Classpath.load]
  | cons m rest ih =>
    obtain ⟨hm, hup⟩ := List.forall_mem_cons.1 hup
    rw [Classpath.sources, List.map_cons, List.forall_mem_cons] at hdeclares
    obtain ⟨hsource, hdeclares⟩ := hdeclares
    have hrest := ih hup hdeclares
    rw [Classpath.load_cons_fst, Module.load_fst hm, Classpath.sources, List.map_cons, firstType?]
    cases hfile : m.source.typeBytes? files (Name.outermost name) with
    | error cause =>
      have hread : readOutermost? files m.source (Name.outermost name) = .error cause := by
        rw [readOutermost?, hfile]
        rfl
      have hstop := Module.Source.typeBytes?_error hfile
      simp [hread, hstop, answer, bind, Except.bind]
    | ok found =>
      cases found with
      | none =>
        have hread : readOutermost? files m.source (Name.outermost name) = .ok none := by
          rw [readOutermost?, hfile]
          rfl
        rw [firstHolds_cons hfile, hread, ok_bind]
        exact hrest
      | some content =>
        rw [readOutermost?_of_file hsource hfile, ok_bind]
        dsimp only
        cases hdecoded : TypeDef.ofBytes content (m.source.context (Name.outermost name)) with
        | error cause =>
          have hstop := TypeDef.ofBytes_error hdecoded
          simp [hstop, answer, bind, Except.bind, Except.map]
        | ok whole =>
          rw [firstHolds_of_file hfile hdecoded, ok_bind]
          cases hpart : whole.descendant? (Name.chain name) with
          | some part => simp [answer, hpart, Except.map, pure, Except.pure]
          | none => simp [answer, hpart, Except.map, pure, Except.pure]

/-- **A new pool answers as the classpath does**, unless the first file for the outermost type does
not hold the type that is asked for. The modules are not behind their files, and the files declare
the types that they are there for. -/
theorem load_fresh_iff {classpath : Classpath} (hup : ∀ m ∈ classpath, m.UpToDate files)
    (hdeclares : ∀ source ∈ classpath.sources, source.Declares files (Name.outermost name))
    (t : TypeDef) :
    ((Pool.ofSources classpath.sources).load files name).1 = .ok t ↔
      (classpath.load files name).1 = .ok t ∧
        ∀ before source after content whole, classpath.sources = before ++ source :: after →
          (∀ s ∈ before, s.typeBytes? files (Name.outermost name) = .ok none) →
          source.typeBytes? files (Name.outermost name) = .ok (some content) →
          TypeDef.ofBytes content (source.context (Name.outermost name)) = .ok whole →
          (whole.descendant? (Name.chain name)).isSome := by
  rw [load_fst]
  exact answer_firstType?_iff hup hdeclares t

/-- Two modules have a class `u.N`, one with a class `u.N$I` in it. -/
def nestedInOne : FileTree :=
  OutputRoot.storing [(⟨⟨"a"⟩⟩, .bare "u.N" .classType),
    (⟨⟨"b"⟩⟩, { TypeDef.bare "u.N" .classType with nested := [.bare "u.N$I" .classType] })]

/-- The first module lacks the nested class, which the classpath finds in the second. -/
theorem load_fresh_lacking :
    let classpath : Classpath := [.directory ⟨"a"⟩, .directory ⟨"b"⟩].map Module.ofSource
    (classpath.load nestedInOne "u.N$I").1 = .ok (.bare "u.N$I" .classType) ∧
      ((Pool.ofSources classpath.sources).load nestedInOne "u.N$I").1 =
        .error (.notFound "u.N$I") := by
  decide +kernel

/-- Asked the other way round, the first module has the nested class, and both find it there. -/
theorem load_fresh_holding :
    let classpath : Classpath := [.directory ⟨"b"⟩, .directory ⟨"a"⟩].map Module.ofSource
    ((Pool.ofSources classpath.sources).load nestedInOne "u.N$I").1 =
        .ok (.bare "u.N$I" .classType) ∧
      (classpath.load nestedInOne "u.N$I").1 = .ok (.bare "u.N$I" .classType) := by
  intro classpath
  have hup : ∀ m ∈ classpath, m.UpToDate nestedInOne := by
    intro m hm
    obtain ⟨source, -, rfl⟩ := List.mem_map.1 hm
    exact Module.upToDate_ofSource nestedInOne source
  have hdeclares : ∀ source ∈ classpath.sources,
      source.Declares nestedInOne (Name.outermost "u.N$I") := by
    decide +kernel
  have hpool : ((Pool.ofSources classpath.sources).load nestedInOne "u.N$I").1 =
      .ok (.bare "u.N$I" .classType) := by
    decide +kernel
  exact ⟨hpool, ((load_fresh_iff hup hdeclares _).1 hpool).1⟩

end Pool

end Mixins
