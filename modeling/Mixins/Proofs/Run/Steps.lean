import Mixins.Run

/-!
# The steps of a run

A run merges the mixins of one target after the other, and then unites one type after the other.
Each step starts from what the steps before it left: from a pool or a classpath, and from files.

* `Step` — a step, with the state that it starts from.
* `run_written` — the files that the steps write are those that the report of the run names.
-/

namespace Mixins.Run

variable (settings : Settings) (root : OutputRoot)

inductive Step where
  /-- The work on one target of the mapping. -/
  | merge (target : String) (mixins : List String) (pool : Pool) (files : FileTree)
  /-- The union of one type. -/
  | unite (name : String) (classpath : Classpath) (files : FileTree)

namespace Step

def name : Step → String
  | merge target _ _ _ => target
  | unite name _ _ => name

/-- The file that is written according to the step's report. -/
def written : Step → Option Path
  | merge target mixins pool files =>
    (Merge.mergeMixins settings.stringTypes root target mixins pool files).1.written
  | unite name classpath files =>
    (Variant.writeUnion settings.stringTypes root name classpath files).1.written

/-- The files after the step. -/
def after : Step → FileTree
  | merge target mixins pool files =>
    (Merge.mergeMixins settings.stringTypes root target mixins pool files).2.2
  | unite name classpath files =>
    (Variant.writeUnion settings.stringTypes root name classpath files).2.2

end Step

def mergeSteps : Mapping → Pool → FileTree → List Step
  | [], _, _ => []
  | (target, mixins) :: rest, pool, files =>
    let done := Merge.mergeMixins settings.stringTypes root target mixins pool files
    .merge target mixins pool files :: mergeSteps rest done.2.1 done.2.2

def uniteSteps : List String → Classpath → FileTree → List Step
  | [], _, _ => []
  | name :: rest, classpath, files =>
    let done := Variant.writeUnion settings.stringTypes root name classpath files
    .unite name classpath files :: uniteSteps rest done.2.1 done.2.2

/-- The targets' reports, the pool and the files when all targets are done. -/
def afterTargets (classpath : Classpath) (files : FileTree) :
    List TargetReport × Pool × FileTree :=
  mergeTargets settings root (discover settings root classpath files).1
    (.ofSources (discover settings root classpath files).2.sources) files

/-- The unions' reports, the classpath and the files in the end. -/
def afterUnions (classpath : Classpath) (files : FileTree) :
    List UnionReport × Classpath × FileTree :=
  uniteTypes settings root settings.unions (discover settings root classpath files).2
    (afterTargets settings root classpath files).2.2

/-- All steps of a run. -/
def steps (classpath : Classpath) (files : FileTree) : List Step :=
  mergeSteps settings root (discover settings root classpath files).1
      (.ofSources (discover settings root classpath files).2.sources) files ++
    uniteSteps settings root settings.unions (discover settings root classpath files).2
      (afterTargets settings root classpath files).2.2

theorem run_eq (classpath : Classpath) (files : FileTree) :
    run settings root classpath files =
      (⟨(discover settings root classpath files).1, (afterTargets settings root classpath files).1,
        (afterUnions settings root classpath files).1⟩,
        (afterUnions settings root classpath files).2.2) := by
  unfold run afterUnions afterTargets
  cases discover settings root classpath files with
  | mk mapping classpath => dsimp only

theorem mergeTargets_cons (target : String) (mixins : List String) (rest : Mapping) (pool : Pool)
    (files : FileTree) :
    mergeTargets settings root ((target, mixins) :: rest) pool files =
      let done := Merge.mergeMixins settings.stringTypes root target mixins pool files
      let later := mergeTargets settings root rest done.2.1 done.2.2
      (done.1 :: later.1, later.2) := by
  rw [mergeTargets]

theorem uniteTypes_cons (name : String) (rest : List String) (classpath : Classpath)
    (files : FileTree) :
    uniteTypes settings root (name :: rest) classpath files =
      let done := Variant.writeUnion settings.stringTypes root name classpath files
      let later := uniteTypes settings root rest done.2.1 done.2.2
      (done.1 :: later.1, later.2) := by
  rw [uniteTypes]

theorem mergeSteps_written (mapping : Mapping) (pool : Pool) (files : FileTree) :
    (mergeSteps settings root mapping pool files).map (·.written settings root) =
      (mergeTargets settings root mapping pool files).1.map (·.written) := by
  induction mapping generalizing pool files with
  | nil => rfl
  | cons entry rest ih =>
    obtain ⟨target, mixins⟩ := entry
    simp only [mergeSteps, mergeTargets_cons, List.map_cons, ih]
    rw [Step.written]

theorem uniteSteps_written (names : List String) (classpath : Classpath) (files : FileTree) :
    (uniteSteps settings root names classpath files).map (·.written settings root) =
      (uniteTypes settings root names classpath files).1.map (·.written) := by
  induction names generalizing classpath files with
  | nil => rfl
  | cons name rest ih =>
    simp only [uniteSteps, uniteTypes_cons, List.map_cons, ih]
    rw [Step.written]

/-- **The steps write what the report says.** -/
theorem run_written (classpath : Classpath) (files : FileTree) :
    (steps settings root classpath files).map (·.written settings root) =
      (run settings root classpath files).1.targets.map (·.written) ++
        (run settings root classpath files).1.unions.map (·.written) := by
  simp only [run_eq, steps, List.map_append, mergeSteps_written, uniteSteps_written, afterTargets,
    afterUnions]

end Mixins.Run
