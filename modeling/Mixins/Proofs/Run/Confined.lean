import Mixins.Proofs.Layout.Inward
import Mixins.Proofs.Merge.Prepared
import Mixins.Proofs.Run.Updates

/-!
# Where a run writes

Each step of a run writes one type at most, to the file of the name that the type declares. For
names that lead inwards, the file and its temporary sibling lie below the output root. Nothing
checks that a declared name does: a target's type can declare any.

* `Step.toWrite?` — the type that a step writes.
* `run_changed` — the files that a run may change.
* `run_confined` — where they lie.
* `run_escapes` — a run that leaves a file beside the output root.
-/

namespace Mixins

open FileTree (Changed Below names)
open Layout (Inward)

/-! ## Below a directory -/

/-- Whether the location lies below the directory that the path leads to. -/
def FileTree.Inside (files : FileTree) (root : Path) (l : Location) : Prop :=
  ∃ dir, (names root).foldlM files.step (files.base root) = .ok dir ∧ dir <+: l ∧ dir ≠ l

theorem FileTree.Below.inside {files : FileTree} {root path : Path} {own : List String}
    {l : Location} (h : Below root path own) (hown : own ≠ []) (hl : files.EndsAt path l) :
    files.Inside root l := by
  obtain ⟨dir, hdir, rfl⟩ := h.endsAt hown hl
  exact ⟨dir, hdir, List.prefix_append dir own, by simpa using hown⟩

/-! ## What the steps write -/

/-- The type that is written when a type is united. -/
def Variant.toWrite? (interfaceName name : String) (classpath : Classpath) (files : FileTree) :
    Option TypeDef :=
  match collect files name classpath with
  | (first :: second :: others, none, _) =>
    (unite? interfaceName (Name.chain name) first (second :: others)).map (·.1)
  | _ => none

theorem Variant.writeUnion_files (interfaceName : String) (root : OutputRoot) (name : String)
    (classpath : Classpath) (files : FileTree) :
    (writeUnion interfaceName root name classpath files).2.2 =
      root.writeAny files (toWrite? interfaceName name classpath files) := by
  unfold writeUnion toWrite?
  cases collect files name classpath with
  | mk variants rest =>
    obtain ⟨cause, classpath'⟩ := rest
    match cause, variants with
    | some cause, [] => rfl
    | some cause, [_] => rfl
    | some cause, _ :: _ :: _ => rfl
    | none, [] => rfl
    | none, [_] => rfl
    | none, first :: second :: others =>
      dsimp only
      cases unite? interfaceName (Name.chain name) first (second :: others) with
      | none => rfl
      | some united =>
        obtain ⟨t, outcome⟩ := united
        dsimp only [Option.map_some, OutputRoot.writeAny]
        cases root.write files t with
        | mk files' written => cases written <;> rfl

namespace Run

variable {settings : Settings} {root : OutputRoot}

namespace Step

/-- The files that the step starts from. -/
def files : Step → FileTree
  | merge _ _ _ files => files
  | unite _ _ files => files

/-- The type that the step writes, or tries to. -/
def toWrite? (settings : Settings) : Step → Option TypeDef
  | merge target mixins pool files =>
    (Merge.prepare files settings.stringTypes target mixins pool).2.2
  | unite name classpath files => Variant.toWrite? settings.stringTypes name classpath files

/-- Whether the location is that of the type file or of the temporary sibling that the step writes,
where `after` are the files in the end. -/
def Writes (settings : Settings) (root : OutputRoot) (after : FileTree) (s : Step) (l : Location) :
    Prop :=
  ∃ t ∈ s.toWrite? settings, after.EndsAt (Path.temporary (root.pathFor t.name)) l ∨
    after.EndsAt (root.pathFor t.name) l

theorem Writes.later {s : Step} {after later : FileTree} {on : Location → Prop} {l : Location}
    (h : s.Writes settings root after l) (hchanged : Changed on after later) :
    s.Writes settings root later l := by
  obtain ⟨t, ht, hl⟩ := h
  exact ⟨t, ht, hl.imp hchanged.endsAt hchanged.endsAt⟩

theorem after_eq (s : Step) : s.after settings root = root.writeAny s.files (s.toWrite? settings) :=
  match s with
  | merge target mixins pool files =>
    congrArg (·.2.2) (Merge.mergeMixins_eq settings.stringTypes root target mixins pool files)
  | unite name classpath files =>
    Variant.writeUnion_files settings.stringTypes root name classpath files

/-- **A step** changes no file but the one that it writes and the temporary sibling. -/
theorem after_changed (settings : Settings) (root : OutputRoot) (s : Step) :
    Changed (s.Writes settings root (s.after settings root)) s.files (s.after settings root) := by
  rw [after_eq]
  unfold Writes
  cases s.toWrite? settings with
  | none => exact .refl _ _
  | some t => exact (root.write_changed s.files t).mono fun l hl => ⟨t, rfl, hl⟩

end Step

/-! ## What a run changes -/

theorem mergeSteps_changed (settings : Settings) (root : OutputRoot) (mapping : Mapping)
    (pool : Pool) (files : FileTree) :
    let after := (mergeTargets settings root mapping pool files).2.2
    Changed (fun l => ∃ s ∈ mergeSteps settings root mapping pool files,
      s.Writes settings root after l) files after := by
  induction mapping generalizing pool files with
  | nil => exact .refl _ _
  | cons entry rest ih =>
    obtain ⟨target, mixins⟩ := entry
    have hfirst := Step.after_changed settings root (.merge target mixins pool files)
    have hrest := ih (Merge.mergeMixins settings.stringTypes root target mixins pool files).2.1
      (Merge.mergeMixins settings.stringTypes root target mixins pool files).2.2
    rw [mergeTargets_cons, mergeSteps]
    refine (hfirst.mono fun l hl => ⟨_, List.mem_cons_self, hl.later hrest⟩).trans
      (hrest.mono fun l hl => ?_)
    obtain ⟨s, hs, hl⟩ := hl
    exact ⟨s, List.mem_cons_of_mem _ hs, hl⟩

theorem uniteSteps_changed (settings : Settings) (root : OutputRoot) (united : List String)
    (classpath : Classpath) (files : FileTree) :
    let after := (uniteTypes settings root united classpath files).2.2
    Changed (fun l => ∃ s ∈ uniteSteps settings root united classpath files,
      s.Writes settings root after l) files after := by
  induction united generalizing classpath files with
  | nil => exact .refl _ _
  | cons name rest ih =>
    have hfirst := Step.after_changed settings root (.unite name classpath files)
    have hrest := ih (Variant.writeUnion settings.stringTypes root name classpath files).2.1
      (Variant.writeUnion settings.stringTypes root name classpath files).2.2
    rw [uniteTypes_cons, uniteSteps]
    refine (hfirst.mono fun l hl => ⟨_, List.mem_cons_self, hl.later hrest⟩).trans
      (hrest.mono fun l hl => ?_)
    obtain ⟨s, hs, hl⟩ := hl
    exact ⟨s, List.mem_cons_of_mem _ hs, hl⟩

/-- **What a run changes.** There may be new directories; the files that change are those that the
steps write, and their temporary siblings. -/
theorem run_changed (settings : Settings) (root : OutputRoot) (classpath : Classpath)
    (files : FileTree) :
    let after := (run settings root classpath files).2
    Changed (fun l => ∃ s ∈ steps settings root classpath files, s.Writes settings root after l)
      files after := by
  have htargets := mergeSteps_changed settings root
    (discover settings root classpath files).1
    (.ofSources (discover settings root classpath files).2.sources) files
  have hunions := uniteSteps_changed settings root settings.unions
    (discover settings root classpath files).2 (afterTargets settings root classpath files).2.2
  rw [afterTargets] at hunions
  rw [run_eq, afterUnions, steps, afterTargets]
  refine (htargets.mono fun l hl => ?_).trans (hunions.mono fun l hl => ?_)
  · obtain ⟨s, hs, hl⟩ := hl
    exact ⟨s, List.mem_append_left _ hs, hl.later hunions⟩
  · obtain ⟨s, hs, hl⟩ := hl
    exact ⟨s, List.mem_append_right _ hs, hl⟩

/-- **Where a run writes.** Whatever is not as it was is a new directory, or it is the file of a
type that a step writes, or the temporary sibling of that file; and where the name that the type
declares leads inwards, it lies below the output root. -/
theorem run_confined (settings : Settings) (root : OutputRoot) (classpath : Classpath)
    (files : FileTree) (l : Location) :
    let after := (run settings root classpath files).2
    after.find? l = files.find? l ∨
      (files.find? l = none ∧ after.find? l = some .directory) ∨
      ∃ s ∈ steps settings root classpath files, ∃ t ∈ s.toWrite? settings,
        (after.EndsAt (Path.temporary (root.pathFor t.name)) l ∨
          after.EndsAt (root.pathFor t.name) l) ∧
        (Inward t.name → after.Inside root.dir l) := by
  refine ((run_changed settings root classpath files).found l).imp_right (.imp_right ?_)
  rintro ⟨⟨s, hs, t, ht, hl⟩, -⟩
  refine ⟨s, hs, t, ht, hl, fun hname => ?_⟩
  obtain ⟨⟨own, hown, hfile⟩, own', hown', htemporary⟩ := Layout.below_of_inward hname root.dir
  exact hl.elim (htemporary.inside hown') (hfile.inside hown)

/-- A library package with a mixin for `def.A`, whose file declares a type without a name. -/
def nameless : FileTree :=
  OutputRoot.storingAt (OutputRoot.storing [
    (⟨⟨"out"⟩⟩, marked (.bare "def.package-info" .packageInfo) Settings.default.rootMarker
      Marker.mixinsProperty (.array [.typeRef "def.M"])),
    (⟨⟨"out"⟩⟩, marked (declaring "def.M" "lent") Settings.default.mixinMarker
      Marker.targetProperty (.typeRef "def.A"))]) ⟨"out/def/A.ctype"⟩ (declaring "" "own")

/-- The file of a type without a name would be the output root itself. It cannot be written there,
but the temporary sibling is left. -/
theorem run_escapes :
    let after := (run Settings.default ⟨⟨"out"⟩⟩ [.ofSource (.directory ⟨"out"⟩)] nameless).2
    nameless.find? ["out.tmp.tmp"] = none ∧
      (∃ content, after.find? ["out.tmp.tmp"] = some (.file content)) ∧
      ¬ after.Inside ⟨"out"⟩ ["out.tmp.tmp"] := by
  intro after
  have hfiles : nameless.find? ["out.tmp.tmp"] = none ∧
      (after.find? ["out.tmp.tmp"]).isSome = true ∧
      after.find? ["out.tmp.tmp"] ≠ some .directory ∧
      (names ⟨"out"⟩).foldlM after.step (after.base ⟨"out"⟩) = .ok ["out"] := by
    decide +kernel
  obtain ⟨hbefore, hsome, hfile, hroot⟩ := hfiles
  refine ⟨hbefore, ?_, ?_⟩
  · cases hnode : after.find? ["out.tmp.tmp"] with
    | none => simp [hnode] at hsome
    | some node =>
      cases node with
      | directory => exact absurd hnode hfile
      | file content => exact ⟨content, rfl⟩
  · rintro ⟨dir, hdir, hleads, -⟩
    rw [hroot, Except.ok.injEq] at hdir
    subst hdir
    exact absurd hleads (by decide)

end Run

end Mixins
