import Mathlib.Data.List.Basic
import Mixins.Descriptor
import Mixins.Proofs.Text.Lossy
import Mixins.Proofs.Text.Occurrence

/-!
# Dependencies do not show in a descriptor

A descriptor is read from the first project description of an archive, up to the tag that opens the
dependencies. The bytes are read as text before the text is cut at the tag; but each byte of the tag
is a character by itself, so what follows it changes nothing in the text before it.

* `generalPart_dependencies` — the text up to the dependencies.
* `ofArchive_dependencies` — archives that differ only in the dependencies have one descriptor.
-/

namespace Mixins.Descriptor

open Utf8 (Bytes)

/-- The bytes of the tag that opens the dependencies. -/
def dependenciesBytes : Bytes := Utf8.encode (String.ofList dependenciesTag)

/-- Whether a project description is kept under the path. -/
def IsProject (path : String) : Prop := projectEnding.toList <:+ path.toList

instance (path : String) : Decidable (IsProject path) :=
  inferInstanceAs (Decidable (projectEnding.toList <:+ path.toList))

/-- Whether archives differ at most in what follows a tag that opens dependencies, the first such
tag or a later one, in the first of their project descriptions. -/
inductive SameButDependencies : Archive → Archive → Prop
  | differing (version : UInt32) (before after : List Archive.Entry) (path : String)
      (modified : Int64) (head rest rest' : Bytes) (hbefore : ∀ e ∈ before, ¬ IsProject e.path)
      (hpath : IsProject path) :
      SameButDependencies
        ⟨version, before ++ ⟨path, modified, head ++ dependenciesBytes ++ rest⟩ :: after⟩
        ⟨version, before ++ ⟨path, modified, head ++ dependenciesBytes ++ rest'⟩ :: after⟩

/-- **The text up to the dependencies** is the same whatever they are. -/
theorem generalPart_dependencies (head : Bytes) : ∃ text, ∀ rest,
    generalPart (Utf8.decodeLossy (head ++ dependenciesBytes ++ rest)).toList = text := by
  obtain ⟨text, hbefore⟩ := Text.before_append_word dependenciesTag (Utf8.decodeLossyChars head)
  refine ⟨text, fun rest => ?_⟩
  have hbytes : dependenciesBytes = Utf8.singleBytes dependenciesTag := by decide
  have hall : dependenciesTag.all (·.toNat < 0x80) = true := by decide
  have htag : ∀ c ∈ dependenciesTag, c.toNat < 0x80 :=
    fun c hc => of_decide_eq_true (List.all_eq_true.1 hall c hc)
  obtain ⟨rest', hbefore⟩ := hbefore (Utf8.decodeLossyChars rest)
  rw [Utf8.decodeLossy, String.toList_ofList, hbytes,
    Utf8.decodeLossyChars_append_singleBytes htag (by decide), generalPart_of_before hbefore]

section

variable {version : UInt32} {before after : List Archive.Entry} {e : Archive.Entry}

theorem entryEndingIn?_project (hbefore : ∀ e ∈ before, ¬ IsProject e.path)
    (he : IsProject e.path) :
    Archive.entryEndingIn? ⟨version, before ++ e :: after⟩ projectEnding = some e := by
  have hnone : before.find? (fun e =>
      (Text.dropWordEnd projectEnding.toList e.path.toList).isSome) = none := by
    rw [List.find?_eq_none]
    exact fun x hx hsome => hbefore x hx (Text.isSome_dropWordEnd_iff.1 hsome)
  have hsome : (Text.dropWordEnd projectEnding.toList e.path.toList).isSome = true :=
    Text.isSome_dropWordEnd_iff.2 he
  rw [Archive.entryEndingIn?, List.find?_append, hnone, Option.none_or, List.find?_cons, hsome]

/-- No project description stands for the manifest. -/
theorem find?_manifest (he : IsProject e.path) :
    Archive.find? ⟨version, before ++ e :: after⟩ Archive.manifestPath =
      Archive.find? ⟨version, before ++ after⟩ Archive.manifestPath := by
  have hmanifest : ¬ IsProject Archive.manifestPath := by decide
  have hother : e.path ≠ Archive.manifestPath := fun h => hmanifest (h ▸ he)
  simp only [Archive.find?, List.find?_append]
  rw [List.find?_cons_of_neg (by simpa using hother)]

end

/-- **Archives that differ only in the dependencies** have the same descriptor, or none for the same
reason. -/
theorem ofArchive_dependencies {a b : Archive} (h : SameButDependencies a b) (group : String) :
    ofArchive group a = ofArchive group b := by
  obtain ⟨version, before, after, path, modified, head, rest, rest', hbefore, hpath⟩ := h
  obtain ⟨text, htext⟩ := generalPart_dependencies head
  unfold ofArchive
  rw [entryEndingIn?_project hbefore hpath, entryEndingIn?_project hbefore hpath,
    find?_manifest hpath, find?_manifest hpath]
  cases Archive.find? ⟨version, before ++ after⟩ Archive.manifestPath with
  | none => rfl
  | some manifest => simp only [htext]

/-- An archive with a project description that breaks off in the middle of a character where the
dependencies are opened. -/
def brokenOff (dependencies : Bytes) : Archive :=
  let head := Utf8.encode "<artifactId>a</artifactId>" ++ [0xe2, 0x82]
  ⟨1, [⟨"a/B.ctype", 1, [0]⟩, ⟨"META-INF/pom.xml", 2, head ++ dependenciesBytes ++ dependencies⟩,
    ⟨Archive.manifestPath, 5, []⟩]⟩

theorem sameButDependencies_brokenOff (dependencies dependencies' : Bytes) :
    SameButDependencies (brokenOff dependencies) (brokenOff dependencies') :=
  .differing 1 [⟨"a/B.ctype", 1, [0]⟩] _ _ _ _ _ _ (by decide) (by decide)

/-- Neither the byte that would go on with the character nor another version is seen. -/
theorem ofArchive_dependencies_brokenOff :
    SameButDependencies (brokenOff [0xac]) (brokenOff (Utf8.encode "<version>9</version>")) ∧
      ofArchive defaultGroup (brokenOff [0xac]) = .ok ⟨"a", "unknown", 5, "unknown"⟩ ∧
      ofArchive defaultGroup (brokenOff (Utf8.encode "<version>9</version>")) =
        .ok ⟨"a", "unknown", 5, "unknown"⟩ := by
  have hsame := sameButDependencies_brokenOff [0xac] (Utf8.encode "<version>9</version>")
  have hfirst : ofArchive defaultGroup (brokenOff [0xac]) = .ok ⟨"a", "unknown", 5, "unknown"⟩ := by
    decide +kernel
  exact ⟨hsame, hfirst, (ofArchive_dependencies hsame defaultGroup).symm.trans hfirst⟩

end Mixins.Descriptor
