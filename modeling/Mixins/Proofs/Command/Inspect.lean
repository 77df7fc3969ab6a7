import Mixins.Command.Execution
import Mixins.Proofs.Command.Arguments
import Mixins.Proofs.Json.TypeForm
import Mixins.Proofs.Module.Addressed

/-!
# Inspecting an archive

A type in an archive can be inspected by its name, and the archive can be opened as a module that is
asked for the type. The two ways look for the entry, check the name that it declares and go down to
the nested type each for itself, and come to the same type.

* `TypeDef.pretty_injective` — what is printed for a type tells the type.
* `Holds` — the type of a name in an archive.
* `load_archive_eq_ok_iff`, `inspectPath_eq_ok_iff` — a module answers with it, and it is printed.
* `execute_inspect_iff` — it is printed just if the module answers with it.
-/

namespace Mixins

/-- **Types that are printed alike** are the same. -/
theorem TypeDef.pretty_injective {t t' : TypeDef} (h : t.pretty = t'.pretty) : t = t' := by
  have hjson : t.toJson = t'.toJson := by
    rw [← Option.some.injEq, ← Json.parse?_pretty, ← Json.parse?_pretty]
    exact congrArg Json.parse? h
  have hread : ∀ x : TypeDef, TypeDef.ofJson? x.toJson.depth x.toJson = some x :=
    fun x => (TypeDef.inverts x x.toJson.depth).trans (if_pos le_rfl)
  rw [← Option.some.injEq, ← hread t, ← hread t', hjson]

theorem Layout.entryPath_outermost (name : String) :
    entryPath (Name.outermost name) = entryPath name := by
  rw [entryPath, Name.outermost_outermost, ← entryPath]

namespace Command

variable {files : FileTree} {path : Path} {archive : Archive} {name : String} {t : TypeDef}

theorem select_eq_ok_iff {whole : TypeDef} : select whole (some name) = .ok t ↔
    whole.name = Name.outermost name ∧ whole.descendant? (Name.chain name) = some t := by
  unfold select
  dsimp only
  split
  · rename_i hname
    exact ⟨nofun, fun h => absurd h.1.symm hname⟩
  · rename_i hname
    rw [not_not] at hname
    cases whole.descendant? (Name.chain name) <;> simp [hname]

/-- **The type of a name in an archive**: the first entry for the name declares the outermost type
around it, and the type is nested in that one. -/
def Holds (archive : Archive) (name : String) (t : TypeDef) : Prop :=
  ∃ entry whole, archive.find? (Layout.entryPath name) = some entry ∧
    Wire.complete (TypeDef.decode Wire.maxDepth) entry.content = .ok whole ∧
    whole.name = Name.outermost name ∧ whole.descendant? (Name.chain name) = some t

theorem load_archive_eq_ok_iff :
    ((Module.ofSource (.archive path archive)).load files name).1 = .ok t ↔
      Holds archive name t := by
  have hup := Module.upToDate_ofSource files (.archive path archive)
  rw [hup.load_eq_ok_iff]
  simp only [Module.readOutermost?_eq_some_iff, Module.ofSource,
    Module.Source.typeBytes?_archive_eq, Layout.entryPath_outermost, Except.ok.injEq,
    Option.map_eq_some_iff, TypeDef.ofBytes_eq_ok_iff, Holds]
  constructor
  · rintro ⟨whole, ⟨_, ⟨entry, hentry, rfl⟩, hdecoded, hname⟩, hpart⟩
    exact ⟨entry, whole, hentry, hdecoded, hname, hpart⟩
  · rintro ⟨entry, whole, hentry, hdecoded, hname, hpart⟩
    exact ⟨whole, ⟨_, ⟨entry, hentry, rfl⟩, hdecoded, hname⟩, hpart⟩

theorem inspectPath_eq_ok_iff (hextension : path.extension? ≠ some Layout.extension)
    (hread : Archive.read files path = .ok archive) {output : String} :
    inspectPath files path (some name) = .ok output ↔
      ∃ t, Holds archive name t ∧ line t.pretty = output := by
  have hopened : (Archive.read files path).mapError Error.archive = .ok archive := by
    rw [hread]
    rfl
  rw [inspectPath, if_neg hextension, hopened, ok_bind]
  dsimp only
  cases hentry : archive.find? (Layout.entryPath name) with
  | none => simp [Holds, hentry]
  | some entry =>
    simp only [bind_eq_ok, decodeType, mapError_eq_ok, TypeDef.ofBytes_eq_ok_iff, select_eq_ok_iff,
      pure_eq_ok, Holds, hentry, Option.some.injEq]
    constructor
    · rintro ⟨whole, hdecoded, t, hselected, houtput⟩
      exact ⟨t, ⟨entry, whole, rfl, hdecoded, hselected⟩, houtput⟩
    · rintro ⟨t, ⟨_, whole, rfl, hdecoded, hselected⟩, houtput⟩
      exact ⟨whole, hdecoded, t, hselected, houtput⟩

theorem line_injective {text text' : String} (h : line text = line text') : text = text' := by
  have hchars := congrArg String.toList h
  simpa [line, String.toList_inj] using hchars

/-- A file that is opened as an archive is read as one. -/
theorem read_of_open? (hopen : Module.Source.open? files path = some (.archive path archive)) :
    Archive.read files path = .ok archive := by
  unfold Module.Source.open? at hopen
  split at hopen
  · cases hopen
  · split at hopen
    · obtain ⟨read, hread, heq⟩ := Option.map_eq_some_iff.1 hopen
      cases heq
      exact toOption_eq_some.1 hread
    · cases hopen

theorem ofQuery_eq_success_iff {answer : Except Error String} {output : String} :
    Result.ofQuery files answer = .success files output ↔ answer = .ok output := by
  cases answer <;> simp [Result.ofQuery, Result.success, Result.failed]

theorem ofQuery_succeeds_iff {answer : Except Error String} :
    (Result.ofQuery files answer).failure = none ↔ Succeeds answer := by
  cases answer with
  | ok output => exact iff_of_true rfl (succeeds_ok output)
  | error cause => exact iff_of_false nofun (not_succeeds_error cause)

theorem text_ne_of_read (hread : Archive.read files path = .ok archive) : path.text ≠ "" := by
  intro htext
  obtain rfl : path = ⟨""⟩ := congrArg Path.mk htext
  cases hread

/-- **Inspecting and loading agree.** For a file that is opened as an archive and does not look like
a type file, and whatever name: there is a command line for inspecting the type, and the name may
stand in an argument of its own if neither it nor the path looks like an option; the command
succeeds just if a module over the archive answers for the name; and what it prints is the text of
the type that the module answers with. -/
theorem execute_inspect_iff (hextension : path.extension? ≠ some Layout.extension)
    (hopen : Module.Source.open? files path = some (.archive path archive)) (name : String)
    (env : Environment) (json : Bool) :
    let m := Module.ofSource (.archive path archive)
    let result := execute files env ⟨.inspect path (some name), json⟩
    parse? ["inspect", "--type=" ++ name, "--", path.text] =
        some ⟨.inspect path (some name), false⟩ ∧
      (parse? ["inspect", path.text, "--type", name] = some ⟨.inspect path (some name), false⟩ ↔
        Arguments.isOption path.text = false ∧ Arguments.isOption name = false) ∧
      (∀ t, result = .success files (line t.pretty) ↔ (m.load files name).1 = .ok t) ∧
      (result.failure = none ↔ ∃ t, (m.load files name).1 = .ok t) := by
  intro m result
  have hread := read_of_open? hopen
  have hinspect : ∀ output, inspectPath files path (some name) = .ok output ↔
      ∃ t, Holds archive name t ∧ line t.pretty = output :=
    fun _ => inspectPath_eq_ok_iff hextension hread
  have hpath := text_ne_of_read hread
  refine ⟨parse?_inspect hpath name, parse?_inspect_iff hpath name, fun t => ?_, ?_⟩
  · rw [load_archive_eq_ok_iff]
    refine ofQuery_eq_success_iff.trans ((hinspect _).trans ⟨?_, fun h => ⟨t, h, rfl⟩⟩)
    rintro ⟨t', h, hprinted⟩
    exact TypeDef.pretty_injective (line_injective hprinted) ▸ h
  · refine ofQuery_succeeds_iff.trans ⟨?_, ?_⟩
    · rintro ⟨output, houtput⟩
      obtain ⟨t, h, -⟩ := (hinspect output).1 houtput
      exact ⟨t, load_archive_eq_ok_iff.2 h⟩
    · rintro ⟨t, ht⟩
      exact ⟨_, (hinspect _).2 ⟨t, load_archive_eq_ok_iff.1 ht, rfl⟩⟩

/-- A type two levels down in an archive file is printed. -/
theorem execute_inspect_iff_nestedTwice :
    let path : Path := ⟨"lib.twar"⟩
    let archive := Archive.empty.add "u/$N.ctype" 0 Module.nestedTwiceFile
    let files := (archive.write .empty path).1
    path.extension? ≠ some Layout.extension ∧
      Module.Source.open? files path = some (.archive path archive) ∧
      parse? ["inspect", "lib.twar", "--type", "u.$N$I$J"] =
        some ⟨.inspect path (some "u.$N$I$J"), false⟩ ∧
      execute files default ⟨.inspect path (some "u.$N$I$J"), false⟩ =
        .success files (line (TypeDef.bare "u.$N$I$J" .enumType).pretty) := by
  intro path archive files
  have hextension : path.extension? ≠ some Layout.extension := by decide +kernel
  have hopen : Module.Source.open? files path = some (.archive path archive) := by decide +kernel
  have hload : ((Module.ofSource (.archive path archive)).load files "u.$N$I$J").1 =
      .ok (.bare "u.$N$I$J" .enumType) := by
    decide +kernel
  obtain ⟨-, hparsed, hprinted, -⟩ := execute_inspect_iff hextension hopen "u.$N$I$J" default false
  have hplain : Arguments.isOption "lib.twar" = false ∧ Arguments.isOption "u.$N$I$J" = false := by
    decide
  exact ⟨hextension, hopen, hparsed.2 hplain, (hprinted _).2 hload⟩

end Command

end Mixins
