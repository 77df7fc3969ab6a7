import Mixins.Proofs.Module.Answer
import Mixins.Proofs.Module.Later

/-!
# Questions to a classpath and to its modules

A classpath is asked for types. Its modules may be asked one by one as well, for types and for the
outermost types around them. Each module remembers what it has decoded, but as long as the files it
looks into stay as they are, nobody sees that: every question is answered as it would be if the
classpath had just been opened.

* `Question`, `ask`, `askEach` — one question, and several one after the other.
* `Current` — modules that are not behind their files.
* `Current.ask`, `Current.ask_fst` — what a question leaves, and what its answer is.
* `askEach_opened` — the answers to several questions.
-/

namespace Mixins

variable {files later : FileTree}

namespace Module

variable {name : String}

/-- A module looks into the file of the outermost type and nowhere else. -/
theorem loadOutermost?_congr {m : Module}
    (h : m.source.typeBytes? later (Name.outermost name) =
      m.source.typeBytes? files (Name.outermost name)) :
    m.loadOutermost? later name = m.loadOutermost? files name := by
  simp only [loadOutermost?, readOutermost?, h]

theorem load_congr {m : Module}
    (h : m.source.typeBytes? later (Name.outermost name) =
      m.source.typeBytes? files (Name.outermost name)) :
    m.load later name = m.load files name := by
  simp only [load, loadOutermost?_congr h]

end Module

namespace Classpath

variable {classpath : Classpath} {sources : List Module.Source} {paths : List Path}

/-- A question for a type, or to the module in a place alone: for a type, or for the outermost type
around it. -/
inductive Question where
  | load (name : String)
  | loadIn (place : Nat) (name : String)
  | outermostIn (place : Nat) (name : String)
  deriving DecidableEq

/-- The name of the type that is asked for. -/
def Question.name : Question → String
  | .load name | .loadIn _ name | .outermostIn _ name => name

inductive Answer where
  | type (found : Except Failure TypeDef)
  | outermost (found : Except Failure (Option TypeDef))
  /-- There is no module in that place. -/
  | noModule
  deriving DecidableEq

/-- The answer to a question, and the modules, which may remember more than before. -/
def ask (files : FileTree) (classpath : Classpath) : Question → Answer × Classpath
  | .load name =>
    let found := classpath.load files name
    (.type found.1, found.2)
  | .loadIn place name =>
    match classpath[place]? with
    | none => (.noModule, classpath)
    | some m =>
      let found := m.load files name
      (.type found.1, classpath.set place found.2)
  | .outermostIn place name =>
    match classpath[place]? with
    | none => (.noModule, classpath)
    | some m =>
      let found := m.loadOutermost? files name
      (.outermost found.1, classpath.set place found.2)

/-- The answers to several questions, each with the files as they are by then. -/
def askEach (classpath : Classpath) : List (FileTree × Question) → List Answer
  | [] => []
  | (files, question) :: calls =>
    let asked := classpath.ask files question
    asked.1 :: askEach asked.2 calls

/-! ## The files that are looked into -/

theorem load_congr {name : String} (h : ∀ source ∈ classpath.sources,
    source.typeBytes? later (Name.outermost name) = source.typeBytes? files (Name.outermost name)) :
    classpath.load later name = classpath.load files name := by
  induction classpath with
  | nil => rfl
  | cons m rest ih =>
    rw [sources, List.map_cons, List.forall_mem_cons] at h
    rw [load, load, Module.load_congr h.1, ih h.2]

theorem ask_congr {question : Question} (h : ∀ source ∈ classpath.sources,
    source.typeBytes? later (Name.outermost question.name) =
      source.typeBytes? files (Name.outermost question.name)) :
    classpath.ask later question = classpath.ask files question := by
  have hmodule : ∀ (place : Nat) (m : Module), classpath[place]? = some m →
      m.source.typeBytes? later (Name.outermost question.name) =
        m.source.typeBytes? files (Name.outermost question.name) :=
    fun place m hm => h _ (List.mem_map_of_mem (List.mem_of_getElem? hm))
  cases question with
  | load name =>
    have hload : classpath.load later name = classpath.load files name := load_congr h
    rw [ask, ask, hload]
  | loadIn place name =>
    rw [ask, ask]
    cases hm : classpath[place]? with
    | none => rfl
    | some m =>
      have hload : m.load later name = m.load files name := Module.load_congr (hmodule place m hm)
      dsimp only
      rw [hload]
  | outermostIn place name =>
    rw [ask, ask]
    cases hm : classpath[place]? with
    | none => rfl
    | some m =>
      have hload : m.loadOutermost? later name = m.loadOutermost? files name :=
        Module.loadOutermost?_congr (hmodule place m hm)
      dsimp only
      rw [hload]

/-! ## What is remembered -/

/-- Whether these are modules over the sources, and what they remember is what their files hold. -/
structure Current (files : FileTree) (sources : List Module.Source) (classpath : Classpath) :
    Prop where
  sources_eq : classpath.sources = sources
  upToDate : ∀ m ∈ classpath, m.UpToDate files

theorem current_opened (files : FileTree) (sources : List Module.Source) :
    Current files sources (sources.map Module.ofSource) := by
  refine ⟨?_, fun m hm => ?_⟩
  · exact (List.map_map ..).trans (List.map_id sources)
  · obtain ⟨source, -, rfl⟩ := List.mem_map.1 hm
    exact Module.upToDate_ofSource files source

/-- A module may be replaced by what a question leaves of it. -/
theorem Current.set {place : Nat} {m m' : Module} (h : Current files sources classpath)
    (hm : classpath[place]? = some m) (hfollows : m.Follows m') (hup : m'.UpToDate files) :
    Current files sources (classpath.set place m') := by
  refine ⟨?_, fun other hother => ?_⟩
  · obtain ⟨hplace, rfl⟩ := List.getElem?_eq_some_iff.1 hm
    rw [← h.sources_eq, Classpath.sources, List.map_set, hfollows.source, ← List.map_set,
      List.set_getElem_self]
    rfl
  · rcases List.mem_or_eq_of_mem_set hother with hother | rfl
    · exact h.upToDate other hother
    · exact hup

theorem upToDate_load (hup : ∀ m ∈ classpath, m.UpToDate files) (name : String) :
    ∀ m ∈ (classpath.load files name).2, m.UpToDate files := by
  induction classpath with
  | nil => exact hup
  | cons m rest ih =>
    obtain ⟨hm, hrest⟩ := List.forall_mem_cons.1 hup
    obtain ⟨rest', hrest', hload⟩ := load_cons_snd files name m rest
    rw [hload, List.forall_mem_cons]
    refine ⟨hm.load name, ?_⟩
    rcases hrest' with rfl | rfl
    · exact hrest
    · exact ih hrest

theorem Follows.sources_eq {classpath' : Classpath} (h : classpath.Follows classpath') :
    classpath'.sources = classpath.sources := by
  induction h with
  | nil => rfl
  | cons hm _ ih => exact congrArg₂ List.cons hm.source ih

/-- **A question leaves** no module behind its files. -/
theorem Current.ask (h : Current files sources classpath) (question : Question) :
    Current files sources (classpath.ask files question).2 := by
  cases question with
  | load name =>
    exact ⟨(load_follows files name classpath).sources_eq.trans h.sources_eq,
      upToDate_load h.upToDate name⟩
  | loadIn place name =>
    rw [Classpath.ask]
    cases hm : classpath[place]? with
    | none => exact h
    | some m =>
      have hup := h.upToDate m (List.mem_of_getElem? hm)
      exact h.set hm (Module.load_follows files m name) (hup.load name)
  | outermostIn place name =>
    rw [Classpath.ask]
    cases hm : classpath[place]? with
    | none => exact h
    | some m =>
      have hup := h.upToDate m (List.mem_of_getElem? hm)
      exact h.set hm (Module.loadOutermost?_follows files m name) (hup.loadOutermost? name)

/-! ## What is answered -/

theorem load_opened (hup : ∀ m ∈ classpath, m.UpToDate files) (name : String) :
    (classpath.load files name).1 =
      (load files name (classpath.sources.map Module.ofSource)).1 := by
  induction classpath with
  | nil => rfl
  | cons m rest ih =>
    obtain ⟨hm, hrest⟩ := List.forall_mem_cons.1 hup
    have hopened := Module.load_fst (Module.upToDate_ofSource files m.source) name
    rw [sources, List.map_cons, List.map_cons, load_cons_fst, load_cons_fst, Module.load_fst hm,
      hopened, ih hrest]
    rfl

/-- **What modules that are not behind their files answer** is what they would if they had just been
opened. -/
theorem Current.ask_fst (h : Current files sources classpath) (question : Question) :
    (classpath.ask files question).1 =
      (Classpath.ask files (sources.map Module.ofSource) question).1 := by
  have hplace : ∀ place : Nat,
      (sources.map Module.ofSource)[place]? = classpath[place]?.map (.ofSource ·.source) := by
    intro place
    rw [← h.sources_eq, Classpath.sources, List.map_map, List.getElem?_map]
    rfl
  cases question with
  | load name => exact congrArg Answer.type (h.sources_eq ▸ load_opened h.upToDate name)
  | loadIn place name =>
    rw [Classpath.ask, Classpath.ask, hplace]
    cases hm : classpath[place]? with
    | none => rfl
    | some m =>
      have hup := h.upToDate m (List.mem_of_getElem? hm)
      have hopened := Module.upToDate_ofSource files m.source
      exact congrArg Answer.type
        ((Module.load_fst hup name).trans (Module.load_fst hopened name).symm)
  | outermostIn place name =>
    rw [Classpath.ask, Classpath.ask, hplace]
    cases hm : classpath[place]? with
    | none => rfl
    | some m =>
      have hup := h.upToDate m (List.mem_of_getElem? hm)
      have hopened := Module.upToDate_ofSource files m.source
      exact congrArg Answer.outermost
        ((hup.loadOutermost?_fst name).trans (hopened.loadOutermost?_fst name).symm)

/-- The answers to several questions, if the files looked into always read as `files`. -/
theorem Current.askEach {calls : List (FileTree × Question)}
    (h : Current files sources classpath)
    (hcalls : ∀ call ∈ calls, ∀ source ∈ sources,
      source.typeBytes? call.1 (Name.outermost call.2.name) =
        source.typeBytes? files (Name.outermost call.2.name)) :
    classpath.askEach calls =
      calls.map fun call => (Classpath.ask files (sources.map Module.ofSource) call.2).1 := by
  induction calls generalizing classpath with
  | nil => rfl
  | cons call calls ih =>
    obtain ⟨hcall, hcalls⟩ := List.forall_mem_cons.1 hcalls
    have hasked : classpath.ask call.1 call.2 = classpath.ask files call.2 :=
      ask_congr (h.sources_eq ▸ hcall)
    rw [Classpath.askEach, hasked, List.map_cons, ih (h.ask call.2) hcalls, h.ask_fst]

/-- Whether the paths still lead to the modules that they led to, and the modules' files for the
name read as they did. -/
structure Unchanged (files later : FileTree) (paths : List Path) (name : String) : Prop where
  opened : ∀ path ∈ paths, Module.Source.open? later path = Module.Source.open? files path
  read : ∀ source ∈ (ofPaths files paths).sources,
    source.typeBytes? later (Name.outermost name) = source.typeBytes? files (Name.outermost name)

theorem ofPaths_congr
    (h : ∀ path ∈ paths, Module.Source.open? later path = Module.Source.open? files path) :
    ofPaths later paths = ofPaths files paths := by
  rw [ofPaths, ofPaths, List.filterMap_congr h]

/-- **Answers have no history.** However many questions a classpath and its modules have been asked,
for whatever names, with or without success: as long as the files that a question is about do not
change, it is answered as by a classpath that has just been opened. -/
theorem askEach_opened {calls : List (FileTree × Question)}
    (h : ∀ call ∈ calls, Unchanged files call.1 paths call.2.name) :
    (ofPaths files paths).askEach calls =
      calls.map fun (later, question) => ((ofPaths later paths).ask later question).1 := by
  have hcurrent := current_opened files (paths.filterMap (Module.Source.open? files))
  have hread := fun call hcall source hsource =>
    (h call hcall).read source (hcurrent.sources_eq ▸ hsource)
  rw [ofPaths, hcurrent.askEach hread]
  refine List.map_congr_left fun ⟨later, question⟩ hcall => ?_
  obtain ⟨hopened, hread⟩ := h _ hcall
  dsimp only at hopened hread ⊢
  rw [ofPaths_congr hopened, ask_congr hread]
  rfl

/-- Two modules with a class `u.N`, in the second of which a class `u.N$I` is nested. The first one
has a file for `u.M` that cannot be decoded. -/
def withBrokenFile : FileTree :=
  let types := OutputRoot.storing [(⟨⟨"a"⟩⟩, .bare "u.N" .classType),
    (⟨⟨"b"⟩⟩, { TypeDef.bare "u.N" .classType with nested := [.bare "u.N$I" .classType] })]
  (types.replace ⟨"a/u/M.ctype"⟩ [0]).1

/-- Questions that succeed and fail by turns, between which a file is written that none of them is
about. -/
theorem askEach_opened_interleaved :
    let paths : List Path := [⟨"a"⟩, ⟨"b"⟩]
    let later := (withBrokenFile.replace ⟨"a/u/P.ctype"⟩ [0]).1
    let calls : List (FileTree × Question) := [(withBrokenFile, .loadIn 0 "u.N$I"),
      (withBrokenFile, .load "u.M"), (later, .load "u.N$I"), (later, .outermostIn 0 "u.N$J"),
      (later, .load "u.M"), (later, .loadIn 0 "u.N$I"), (withBrokenFile, .loadIn 1 "u.N$I")]
    (∀ call ∈ calls, Unchanged withBrokenFile call.1 paths call.2.name) ∧
      (ofPaths withBrokenFile paths).askEach calls =
        calls.map fun (later, question) => ((ofPaths later paths).ask later question).1 := by
  intro paths later calls
  have hopened : ∀ call ∈ calls, ∀ path ∈ paths,
      Module.Source.open? call.1 path = Module.Source.open? withBrokenFile path := by
    decide +kernel
  have hread : ∀ call ∈ calls, ∀ source ∈ (ofPaths withBrokenFile paths).sources,
      source.typeBytes? call.1 (Name.outermost call.2.name) =
        source.typeBytes? withBrokenFile (Name.outermost call.2.name) := by
    decide +kernel
  have hunchanged : ∀ call ∈ calls, Unchanged withBrokenFile call.1 paths call.2.name :=
    fun call hcall => ⟨hopened call hcall, hread call hcall⟩
  exact ⟨hunchanged, askEach_opened hunchanged⟩

end Classpath

end Mixins
