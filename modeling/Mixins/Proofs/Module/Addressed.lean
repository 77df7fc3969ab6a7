import Mixins.Proofs.Archive.Packed
import Mixins.Proofs.NameBelow
import Mixins.Proofs.WellNamed

/-!
# Types are found under their own names

The name of a type in a well-named tree tells the file, through its outermost name, and the way down
the tree, through the segments after it. So a module that has the file answers for each type in it
with that type.

* `WellNamed.parts_of_name` — what the name of a type tells.
* `load_addressed` — a module answers for each name in a well-named file with the type of that name.
-/

namespace Mixins

namespace TypeDef

variable {t x : TypeDef}

/-- The way to a type leads through segments. -/
theorem WellNamed.segments_of_descendant? {path : List String} (h : t.WellNamed)
    (hx : t.descendant? path = some x) : ∀ segment ∈ path, Name.IsSegment segment := by
  induction path generalizing t with
  | nil => exact fun _ hmem => nomatch hmem
  | cons inner path ih =>
    rw [descendant?, Option.bind_eq_some_iff] at hx
    obtain ⟨n, hn, hx⟩ := hx
    obtain ⟨hmem, rfl⟩ := nestedType?_some hn
    exact List.forall_mem_cons.2 ⟨(h.innerName hmem).1, ih (h.branch hmem) hx⟩

/-- **What the name of a type tells**: the outermost type around it, and the way down to it. -/
theorem WellNamed.parts_of_name (h : t.WellNamed) (houter : Name.outermost t.name = t.name)
    (hx : x ∈ t.types) :
    Name.outermost x.name = t.name ∧ t.descendant? (Name.chain x.name) = some x := by
  obtain ⟨path, hpath⟩ := h.mem_types_iff.1 hx
  have hname := h.name_of_descendant? hpath
  obtain ⟨houtermost, hchain⟩ :=
    Name.parts_below h.simple_ne (h.segments_of_descendant? hpath)
  rw [hname, houtermost, hchain, houter, Name.chain_of_isOutermost (Name.isOutermost_iff.2 houter)]
  exact ⟨rfl, hpath⟩

end TypeDef

namespace Module

variable {files : FileTree}

/-- Whether the module has the content as the file of the outermost type: below a directory, where
the segments of a plain name lead; in an archive, as the entry of that path. -/
def Source.Keeps (files : FileTree) (outer : String) (content : Utf8.Bytes) : Source → Prop
  | .directory root => Layout.IsPlain outer ∧
      files.read (root.join ⟨Layout.entryPath outer⟩) = .ok content
  | .archive _ a => ∃ e, a.find? (Layout.entryPath outer) = some e ∧ e.content = content

theorem Source.Keeps.typeBytes? {source : Source} {outer : String} {content : Utf8.Bytes}
    (h : source.Keeps files outer content) :
    source.typeBytes? files outer = .ok (some content) := by
  cases source with
  | directory root =>
    obtain ⟨hplain, hread⟩ := h
    rw [typeBytes?_directory_eq_some_iff, Layout.fileIn_eq_join root hplain, hread]
  | archive path a =>
    obtain ⟨e, he, rfl⟩ := h
    rw [typeBytes?_archive_eq, he, Option.map_some]

/-- **Every type is found under its own name.** If a module keeps a well-named type in the file for
its name, it answers for the name of each type in it, at whatever depth, with just that type. -/
theorem load_addressed {m : Module} (hup : m.UpToDate files) {outer : String}
    {content : Utf8.Bytes} {whole t : TypeDef} (hkeeps : m.source.Keeps files outer content)
    (hdecoded : TypeDef.ofBytes content (m.source.context outer) = .ok whole)
    (hname : whole.name = outer) (houter : Name.outermost outer = outer)
    (hnamed : whole.WellNamed) (ht : t ∈ whole.types) : (m.load files t.name).1 = .ok t := by
  subst hname
  obtain ⟨houtermost, hpart⟩ := hnamed.parts_of_name houter ht
  refine hup.load_eq_ok_iff.2 ⟨whole, ?_, hpart⟩
  rw [houtermost]
  exact readOutermost?_eq_some_iff.2 ⟨content, hkeeps.typeBytes?, hdecoded, rfl⟩

/-- A type whose simple name begins with a dollar sign, with types nested in one another. -/
def nestedTwice : TypeDef :=
  { TypeDef.bare "u.$N" .classType with
    nested := [.bare "u.$N$H" .classType,
      { TypeDef.bare "u.$N$I" .classType with nested := [.bare "u.$N$I$J" .enumType] }] }

def nestedTwiceFile : Utf8.Bytes := nestedTwice.toBytes.toOption.getD []

def nestedTwiceTree : FileTree := OutputRoot.storing [(⟨⟨"m"⟩⟩, nestedTwice)]

/-- The innermost type is found in a directory and in an archive. -/
theorem load_addressed_nestedTwice :
    let innermost := TypeDef.bare "u.$N$I$J" .enumType
    let archive := Archive.empty.add "u/$N.ctype" 0 nestedTwiceFile
    ((ofSource (.directory ⟨"m"⟩)).load nestedTwiceTree innermost.name).1 = .ok innermost ∧
      ((ofSource (.archive ⟨"m.twar"⟩ archive)).load nestedTwiceTree innermost.name).1 =
        .ok innermost := by
  intro innermost archive
  have hdirectory : (Source.directory ⟨"m"⟩).Keeps nestedTwiceTree "u.$N" nestedTwiceFile :=
    ⟨by decide, by decide +kernel⟩
  have harchive : (Source.archive ⟨"m.twar"⟩ archive).Keeps nestedTwiceTree "u.$N"
      nestedTwiceFile := by
    have hpath : Layout.entryPath "u.$N" = "u/$N.ctype" := by decide
    refine ⟨⟨"u/$N.ctype", 0, nestedTwiceFile⟩, ?_, rfl⟩
    rw [hpath]
    exact Archive.find?_add_self _ _ _ _
  have hdecoded : ∀ context, TypeDef.ofBytes nestedTwiceFile context = .ok nestedTwice := by
    intro context
    rw [TypeDef.ofBytes_eq_ok_iff]
    decide +kernel
  have hname : nestedTwice.name = "u.$N" := rfl
  have hnamed : nestedTwice.WellNamed := by decide +kernel
  have hmem : innermost ∈ nestedTwice.types := by decide +kernel
  have houter : Name.outermost "u.$N" = "u.$N" := by decide
  have hupToDate := upToDate_ofSource nestedTwiceTree
  exact ⟨load_addressed (hupToDate _) hdirectory (hdecoded _) hname houter hnamed hmem,
    load_addressed (hupToDate _) harchive (hdecoded _) hname houter hnamed hmem⟩

end Module

end Mixins
