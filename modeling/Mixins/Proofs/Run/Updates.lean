import Mixins.Proofs.Discovery
import Mixins.Proofs.Merge.Saved
import Mixins.Proofs.Run.Steps
import Mixins.Proofs.Variant.Output

/-!
# Updates within a run

Targets are merged in one pool, and the pool is never behind the files that were written from it.
The unions ask the modules, and these remember what they have read: a file that discovery has read
before the merges, or an earlier union before it wrote, is not read again. A union that starts from
such a type writes over what was merged into the file.

* `mergeSteps_holds`, `uniteSteps_holds` — what each of the two phases keeps.
* `run_keepsUpdates` — no update is lost unless a union starts behind a file of the same run.
* `run_losesUpdate` — a run where a union does.
-/

namespace Mixins.Run

open Layout (IsPlain)

variable {settings : Settings} {root : OutputRoot} {files : FileTree} {pool : Pool}
  {classpath : Classpath} {name : String} {t : TypeDef}

namespace Step

/-- Whether the step works on a plain name and, if it merges, on a type that has its own name in the
pool. -/
def WellNamed (settings : Settings) (root : OutputRoot) : Step → Prop
  | merge target mixins pool files => IsPlain target ∧
    ∀ t ∈ (Merge.mergeMixins settings.stringTypes root target mixins pool files).2.1.residentType?
      (Name.outermost target), t.name = Name.outermost target
  | unite name _ _ => IsPlain name

instance (s : Step) : Decidable (s.WellNamed settings root) :=
  match s with
  | merge target mixins pool files => inferInstanceAs (Decidable (IsPlain target ∧
    ∀ t ∈ (Merge.mergeMixins settings.stringTypes root target mixins pool files).2.1.residentType?
      (Name.outermost target), t.name = Name.outermost target))
  | unite name _ _ => inferInstanceAs (Decidable (IsPlain name))

/-- Whether the step starts from what the output root has. Targets always do. -/
def StartsUpToDate (root : OutputRoot) : Step → Prop
  | merge _ _ _ _ => True
  | unite name classpath files => Variant.StartsUpToDate root name classpath files

end Step

/-! ## Targets -/

/-- **The remaining targets keep what is saved.** -/
theorem mergeSteps_holds {mapping : Mapping} (hname : IsPlain name)
    (hsteps : ∀ s ∈ mergeSteps settings root mapping pool files, s.WellNamed settings root)
    (hsaved : root.Saved files pool name t) :
    root.Holds (mergeTargets settings root mapping pool files).2.2 name t := by
  induction mapping generalizing pool files with
  | nil => exact hsaved.holds
  | cons entry rest ih =>
    obtain ⟨target, mixins⟩ := entry
    rw [mergeSteps, List.forall_mem_cons] at hsteps
    obtain ⟨⟨htarget, hresident⟩, hrest⟩ := hsteps
    have hwork := Merge.mergeMixins_work settings.stringTypes root target mixins pool files
    rw [mergeTargets_cons]
    exact ih hrest (hwork.saved htarget hresident hname hsaved)

/-- What a target has written is in its file when all targets are done. -/
theorem mergeSteps_written_holds {mapping : Mapping} {s : Step} {path : Path}
    (hsteps : ∀ s ∈ mergeSteps settings root mapping pool files, s.WellNamed settings root)
    (hs : s ∈ mergeSteps settings root mapping pool files)
    (hwritten : s.written settings root = some path) :
    path = root.pathFor s.name ∧ IsPlain s.name ∧
      ∃ t, root.read (s.after settings root) s.name = .ok t ∧
        root.Holds (mergeTargets settings root mapping pool files).2.2 s.name t := by
  induction mapping generalizing pool files with
  | nil => cases hs
  | cons entry rest ih =>
    obtain ⟨target, mixins⟩ := entry
    rw [mergeSteps, List.forall_mem_cons] at hsteps
    obtain ⟨⟨htarget, hresident⟩, hrest⟩ := hsteps
    rw [mergeTargets_cons]
    rw [mergeSteps, List.mem_cons] at hs
    obtain rfl | hs := hs
    · have hwork := Merge.mergeMixins_work settings.stringTypes root target mixins pool files
      obtain ⟨hpath, t, hread, hsaved⟩ := hwork.saved_written hresident hwritten
      exact ⟨hpath, htarget, t, hread, mergeSteps_holds htarget hrest hsaved⟩
    · exact ih hrest hs

/-! ## Unions -/

/-- **The remaining unions keep what the output root has**, if those that write the file start from
it. -/
theorem uniteSteps_holds {names : List String} (hrooted : classpath.Rooted root)
    (hname : IsPlain name)
    (hsteps : ∀ s ∈ uniteSteps settings root names classpath files,
      s.WellNamed settings root ∧
        (s.written settings root = some (root.pathFor name) → s.StartsUpToDate root))
    (hholds : root.Holds files name t) :
    root.Holds (uniteTypes settings root names classpath files).2.2 name t := by
  induction names generalizing classpath files with
  | nil => exact hholds
  | cons united rest ih =>
    rw [uniteSteps, List.forall_mem_cons] at hsteps
    obtain ⟨⟨hunited, hstart⟩, hrest⟩ := hsteps
    obtain ⟨huniting, hasked⟩ :=
      Variant.writeUnion_uniting settings.stringTypes root united classpath files
    have hfollows := Variant.collect_follows files united classpath
    rw [← hasked] at hfollows
    rw [uniteTypes_cons]
    exact ih (hrooted.follows hfollows) hrest
      (huniting.holds hrooted hunited hname hstart hholds)

/-- What a union has written is in its file in the end, if the later unions that write the file
start from it. -/
theorem uniteSteps_written_holds {names : List String} {s : Step} {path : Path}
    (hrooted : classpath.Rooted root)
    (hsteps : ∀ s ∈ uniteSteps settings root names classpath files, s.WellNamed settings root)
    (hupdates : (uniteSteps settings root names classpath files).Pairwise fun s s' =>
      ∀ path, s.written settings root = some path → s'.written settings root = some path →
        s'.StartsUpToDate root)
    (hs : s ∈ uniteSteps settings root names classpath files)
    (hwritten : s.written settings root = some path) :
    path = root.pathFor s.name ∧ ∃ t, root.read (s.after settings root) s.name = .ok t ∧
      root.Holds (uniteTypes settings root names classpath files).2.2 s.name t := by
  induction names generalizing classpath files with
  | nil => cases hs
  | cons united rest ih =>
    rw [uniteSteps, List.forall_mem_cons] at hsteps
    rw [uniteSteps, List.pairwise_cons] at hupdates
    obtain ⟨hunited, hrest⟩ := hsteps
    obtain ⟨hlater, hupdates⟩ := hupdates
    obtain ⟨huniting, hasked⟩ :=
      Variant.writeUnion_uniting settings.stringTypes root united classpath files
    have hfollows := Variant.collect_follows files united classpath
    rw [← hasked] at hfollows
    rw [uniteTypes_cons]
    rw [uniteSteps, List.mem_cons] at hs
    obtain rfl | hs := hs
    · obtain ⟨hpath, t, hread⟩ := huniting.read_written hrooted.honest hwritten
      rw [hpath] at hwritten
      refine ⟨hpath, t, hread, uniteSteps_holds (hrooted.follows hfollows) hunited
        (fun s' hs' => ⟨hrest s' hs', hlater s' hs' _ hwritten⟩) ⟨t, hread, .refl t⟩⟩
    · exact ih (hrooted.follows hfollows) hrest hupdates hs

/-! ## The run -/

/-- **No update of a run is lost** unless a union starts behind the file that it writes. The
classpath starts with the output root; the steps are those that the report tells of. If each union
that writes a file which an earlier step of the run has written starts from what the file holds,
then what a step has written is still declared in its file in the end. -/
theorem run_keepsUpdates (hrooted : classpath.Rooted root)
    (hnames : ∀ s ∈ steps settings root classpath files, s.WellNamed settings root)
    (hupdates : (steps settings root classpath files).Pairwise fun s s' =>
      ∀ path, s.written settings root = some path → s'.written settings root = some path →
        s'.StartsUpToDate root) :
    (steps settings root classpath files).map (·.written settings root) =
        (run settings root classpath files).1.targets.map (·.written) ++
          (run settings root classpath files).1.unions.map (·.written) ∧
      ∀ s ∈ steps settings root classpath files, ∀ path, s.written settings root = some path →
        path = root.pathFor s.name ∧ ∃ t t',
          root.read (s.after settings root) s.name = .ok t ∧
          root.read (run settings root classpath files).2 s.name = .ok t' ∧
          t.Extends t' ∧ ∀ way slot, t.Declares way slot → t'.Declares way slot := by
  refine ⟨run_written settings root classpath files, fun s hs path hwritten => ?_⟩
  have hasked : (discover settings root classpath files).2.Rooted root :=
    hrooted.follows (Discovery.ask_follows files settings root classpath)
  rw [steps, afterTargets, List.forall_mem_append] at hnames
  rw [steps, afterTargets, List.pairwise_append] at hupdates
  obtain ⟨htargets, hunions⟩ := hnames
  obtain ⟨-, hbetween, hcross⟩ := hupdates
  have hkept : path = root.pathFor s.name ∧ ∃ t, root.read (s.after settings root) s.name = .ok t ∧
      root.Holds (run settings root classpath files).2 s.name t := by
    rw [run_eq, afterUnions, afterTargets]
    rw [steps, afterTargets, List.mem_append] at hs
    obtain hs | hs := hs
    · obtain ⟨hpath, hplain, t, hread, hholds⟩ := mergeSteps_written_holds htargets hs hwritten
      rw [hpath] at hwritten
      exact ⟨hpath, t, hread, uniteSteps_holds hasked hplain
        (fun s' hs' => ⟨hunions s' hs', hcross s hs s' hs' _ hwritten⟩) hholds⟩
    · exact uniteSteps_written_holds hasked hunions hbetween hs hwritten
  obtain ⟨hpath, t, hread, t', hread', hext⟩ := hkept
  exact ⟨hpath, t, t', hread, hread', hext, fun _ _ => hext.declares⟩

theorem mergeSteps_startUpToDate (settings : Settings) (root : OutputRoot) (mapping : Mapping)
    (pool : Pool) (files : FileTree) :
    ∀ s ∈ mergeSteps settings root mapping pool files, s.StartsUpToDate root := by
  induction mapping generalizing pool files with
  | nil => exact fun s hs => nomatch hs
  | cons entry rest ih =>
    obtain ⟨target, mixins⟩ := entry
    rw [mergeSteps, List.forall_mem_cons]
    exact ⟨trivial, ih _ _⟩

/-- A class with one method. -/
def declaring (name method : String) : TypeDef :=
  ⟨{ (TypeDef.bare name .classType).toDeclaration with
      methods := [⟨method, ⟨[], .void⟩, publicAccess, none, none⟩] }, []⟩

def marked (t : TypeDef) (marker property : String) (value : Marker.Value) : TypeDef :=
  { t with markers := [⟨marker, Properties.empty.insert property value⟩] }

/-- A library package with the mixin `def.M` for the target `def.A`, of which another module has a
part. -/
def library : FileTree :=
  OutputRoot.storing [
    (⟨⟨"out"⟩⟩, marked (.bare "def.package-info" .packageInfo) Settings.default.rootMarker
      Marker.mixinsProperty (.array [.typeRef "def.M"])),
    (⟨⟨"out"⟩⟩, marked (declaring "def.M" "lent") Settings.default.mixinMarker
      Marker.targetProperty (.typeRef "def.A")),
    (⟨⟨"out"⟩⟩, declaring "def.A" "own"), (⟨⟨"lib"⟩⟩, declaring "def.A" "other")]

def unitingTarget : Settings := { Settings.default with unions := ["def.A"] }

def libraryOpened : Classpath := [.directory ⟨"out"⟩, .directory ⟨"lib"⟩].map Module.ofSource

/-- The target and the union write the same file. Discovery has not read the target, and what the
mixin has lent is still there in the end. -/
theorem run_keepsUpdates_unread :
    (steps unitingTarget ⟨⟨"out"⟩⟩ libraryOpened library).map (·.written unitingTarget ⟨⟨"out"⟩⟩) =
      [some ⟨"out/def/A.ctype"⟩, some ⟨"out/def/A.ctype"⟩] ∧
    ∃ t', OutputRoot.read ⟨⟨"out"⟩⟩ (run unitingTarget ⟨⟨"out"⟩⟩ libraryOpened library).2 "def.A" =
      .ok t' ∧ t'.Declares [] (.method "lent") := by
  have hsteps :
      (steps unitingTarget ⟨⟨"out"⟩⟩ libraryOpened library).map
          (·.written unitingTarget ⟨⟨"out"⟩⟩) =
        [some ⟨"out/def/A.ctype"⟩, some ⟨"out/def/A.ctype"⟩] ∧
      (∀ s ∈ steps unitingTarget ⟨⟨"out"⟩⟩ libraryOpened library,
        s.WellNamed unitingTarget ⟨⟨"out"⟩⟩) ∧
      (∀ m ∈ (discover unitingTarget ⟨⟨"out"⟩⟩ libraryOpened library).2.head?,
        m.known.lookup (Name.outermost "def.A") = none) ∧
      (steps unitingTarget ⟨⟨"out"⟩⟩ libraryOpened library).head?.map (fun s => (s.name,
        (OutputRoot.read ⟨⟨"out"⟩⟩ (s.after unitingTarget ⟨⟨"out"⟩⟩) "def.A").toOption.map
          fun t => decide (t.Declares [] (.method "lent")))) = some ("def.A", some true) := by
    decide +kernel
  obtain ⟨hwritten, hnames, hunread, hfirst⟩ := hsteps
  have hstarts : ∀ s ∈ steps unitingTarget ⟨⟨"out"⟩⟩ libraryOpened library,
      s.StartsUpToDate ⟨⟨"out"⟩⟩ := by
    rw [steps, List.forall_mem_append]
    refine ⟨mergeSteps_startUpToDate _ _ _ _ _, fun s hs => ?_⟩
    rw [List.mem_singleton.1 hs]
    exact Variant.startsUpToDate_of_unread (by decide) hunread
  have hrooted : libraryOpened.Rooted ⟨⟨"out"⟩⟩ :=
    Classpath.rooted_ofSource ⟨⟨"out"⟩⟩ [.directory ⟨"lib"⟩]
  have hkept := (run_keepsUpdates hrooted hnames
    (List.pairwise_of_forall_mem_list fun _ _ s' hs' _ _ _ => hstarts s' hs')).2
  refine ⟨hwritten, ?_⟩
  cases hlist : steps unitingTarget ⟨⟨"out"⟩⟩ libraryOpened library with
  | nil =>
    rw [hlist] at hwritten
    cases hwritten
  | cons s rest =>
    rw [hlist, List.map_cons, List.cons.injEq] at hwritten
    rw [hlist, List.head?_cons, Option.map_some, Option.some.injEq, Prod.mk.injEq] at hfirst
    rw [hlist, List.forall_mem_cons] at hkept
    obtain ⟨hname, hlent⟩ := hfirst
    obtain ⟨-, t, t', hread, hread', -, hdeclares⟩ := hkept.1 _ hwritten.1
    rw [hname] at hread hread'
    rw [hread] at hlent
    exact ⟨t', hread', hdeclares [] _ (of_decide_eq_true (Option.some.inj hlent))⟩

/-- The library package once more, where the target is itself a mixin, for `def.B`. -/
def remembering : FileTree :=
  OutputRoot.storing [
    (⟨⟨"out"⟩⟩, marked (.bare "def.package-info" .packageInfo) Settings.default.rootMarker
      Marker.mixinsProperty (.array [.typeRef "def.M", .typeRef "def.A"])),
    (⟨⟨"out"⟩⟩, marked (declaring "def.M" "lent") Settings.default.mixinMarker
      Marker.targetProperty (.typeRef "def.A")),
    (⟨⟨"out"⟩⟩, marked (declaring "def.A" "own") Settings.default.mixinMarker
      Marker.targetProperty (.typeRef "def.B")),
    (⟨⟨"out"⟩⟩, .bare "def.B" .classType), (⟨⟨"lib"⟩⟩, declaring "def.A" "other")]

/-- Discovery has read the target as a mixin. The union starts from what it has read, and what was
lent to the target is no longer there in the end. -/
theorem run_losesUpdate :
    (∃ s ∈ steps unitingTarget ⟨⟨"out"⟩⟩ libraryOpened remembering,
      s.written unitingTarget ⟨⟨"out"⟩⟩ = some ⟨"out/def/A.ctype"⟩ ∧
      ∃ t ∈ (OutputRoot.read ⟨⟨"out"⟩⟩ (s.after unitingTarget ⟨⟨"out"⟩⟩) "def.A").toOption,
        t.Declares [] (.method "lent")) ∧
    ∃ t ∈ (OutputRoot.read ⟨⟨"out"⟩⟩
        (run unitingTarget ⟨⟨"out"⟩⟩ libraryOpened remembering).2 "def.A").toOption,
      ¬ t.Declares [] (.method "lent") := by
  decide +kernel

end Mixins.Run
