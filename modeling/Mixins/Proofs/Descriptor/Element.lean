import Mathlib.Data.List.Basic
import Mixins.Descriptor
import Mixins.Proofs.Text.Occurrence

/-!
# The elements of a descriptor

An element of a project description is looked for line by line: the first opening tag that is closed
on its line opens it, and the last closing tag of that line ends it. So where several elements of a
name share a line, they are taken for one, with the tags between them as its content.

* `element?_eq_some_iff` — which opening tag and which closing tag an element lies between.
* `ofArchive_untagged` — a descriptor shows no tag just if each element that is found is closed once
  on its line, and not opened again before that.
* `ofArchive_untagged_oneLine` — a parent's name on the same line.
-/

namespace Mixins.Descriptor

open Text (beforeLast OccursOnce)

variable {opening closing text head line line' content : List Char} {c d : Char}

/-! ## Where an element is found -/

/-- Whether the opening tag stands after `head` in the text, and `line` is what follows it on its
line. -/
def OpensAt (opening text head line : List Char) : Prop :=
  ∃ rest, text = head ++ opening ++ rest ∧ line = rest.takeWhile (· ≠ '\n')

/-- Whether `line` is what follows, on its line, the first opening tag that is closed there. -/
structure FirstClosed (opening closing text line : List Char) : Prop where
  closed : closing <:+: line
  opened : ∃ head, OpensAt opening text head line ∧
    ∀ other line', OpensAt opening text other line' → closing <:+: line' →
      head.length ≤ other.length

theorem OpensAt.isPrefix (h : OpensAt opening text head line) : head ++ opening <+: text := by
  obtain ⟨rest, rfl, -⟩ := h
  exact List.prefix_append _ _

theorem OpensAt.line_eq (h : OpensAt opening text head line)
    (h' : OpensAt opening text head line') : line = line' := by
  obtain ⟨rest, rfl, rfl⟩ := h
  obtain ⟨rest', hrest, rfl⟩ := h'
  rw [List.append_cancel_left hrest]

theorem opensAt_cons : OpensAt opening (c :: text) (d :: head) line ↔
    d = c ∧ OpensAt opening text head line := by
  simp only [OpensAt, List.cons_append, List.cons.injEq, and_assoc, exists_and_left, eq_comm]

/-- There is only one such line. -/
theorem FirstClosed.line_eq (h : FirstClosed opening closing text line)
    (h' : FirstClosed opening closing text line') : line = line' := by
  obtain ⟨hclosed, head, hopens, hfirst⟩ := h
  obtain ⟨hclosed', head', hopens', hfirst'⟩ := h'
  have hlength := Nat.le_antisymm (hfirst head' line' hopens' hclosed')
    (hfirst' head line hopens hclosed)
  rw [Text.eq_of_length_eq hopens.isPrefix hopens'.isPrefix hlength] at hopens
  exact hopens.line_eq hopens'

theorem firstClosed_of_opensAt (hopens : OpensAt opening text [] line)
    (hclosed : closing <:+: line) : FirstClosed opening closing text line :=
  ⟨hclosed, [], hopens, fun _ _ _ _ => Nat.zero_le _⟩

theorem not_firstClosed_nil (hopening : opening ≠ []) :
    ¬ FirstClosed opening closing [] line := by
  rintro ⟨-, head, ⟨rest, hrest, -⟩, -⟩
  rw [eq_comm, List.append_eq_nil_iff, List.append_eq_nil_iff] at hrest
  exact hopening hrest.1.2

/-- Where no element begins, it is looked for behind the first character. -/
theorem firstClosed_cons (h : ∀ line, OpensAt opening (c :: text) [] line → ¬ closing <:+: line) :
    FirstClosed opening closing (c :: text) line ↔ FirstClosed opening closing text line := by
  constructor
  · rintro ⟨hclosed, head, hopens, hfirst⟩
    cases head with
    | nil => exact absurd hclosed (h line hopens)
    | cons d head =>
      obtain ⟨rfl, hlater⟩ := opensAt_cons.1 hopens
      refine ⟨hclosed, head, hlater, fun other line' hopens' hclosed' => ?_⟩
      exact Nat.le_of_succ_le_succ
        (hfirst (d :: other) line' (opensAt_cons.2 ⟨rfl, hopens'⟩) hclosed')
  · rintro ⟨hclosed, head, hopens, hfirst⟩
    refine ⟨hclosed, c :: head, opensAt_cons.2 ⟨rfl, hopens⟩, ?_⟩
    intro other line' hopens' hclosed'
    cases other with
    | nil => exact absurd hclosed' (h line' hopens')
    | cons d other =>
      exact Nat.succ_le_succ (hfirst other line' (opensAt_cons.1 hopens').2 hclosed')

theorem isInfix_of_beforeLast (h : beforeLast closing line = some content) : closing <:+: line :=
  Text.isInfix_iff_exists_prefix.2 ⟨content, Text.beforeLast_occurs h⟩

/-- What is tried at each place of the text. -/
theorem bind_dropWord_eq_some_iff :
    ((Text.dropWord opening text).bind
      fun rest => beforeLast closing (rest.takeWhile (· ≠ '\n'))) = some content ↔
      ∃ line, OpensAt opening text [] line ∧ beforeLast closing line = some content := by
  simp only [Option.bind_eq_some_iff, Text.dropWord_eq_some_iff, OpensAt, List.nil_append]
  constructor
  · rintro ⟨rest, htext, hcontent⟩
    exact ⟨_, ⟨rest, htext, rfl⟩, hcontent⟩
  · rintro ⟨line, ⟨rest, htext, rfl⟩, hcontent⟩
    exact ⟨rest, htext, hcontent⟩

/-- **An element** lies between the first opening tag that is closed on its line and the last
closing tag of that line. -/
theorem element?_eq_some_iff (hopening : opening ≠ []) :
    element? opening closing text = some content ↔
      ∃ line, FirstClosed opening closing text line ∧ beforeLast closing line = some content := by
  induction text with
  | nil =>
    rw [element?]
    exact ⟨nofun, fun ⟨_, hfirst, _⟩ => absurd hfirst (not_firstClosed_nil hopening)⟩
  | cons c text ih =>
    rw [element?]
    split
    · rename_i found htried
      obtain ⟨line, hopens, hfound⟩ := bind_dropWord_eq_some_iff.1 htried
      have hfirst := firstClosed_of_opensAt hopens (isInfix_of_beforeLast hfound)
      constructor
      · rintro ⟨⟩
        exact ⟨line, hfirst, hfound⟩
      · rintro ⟨line', hfirst', hcontent⟩
        rw [hfirst'.line_eq hfirst, hfound] at hcontent
        exact hcontent
    · rename_i htried
      rw [ih]
      refine exists_congr fun line => and_congr_left fun _ => (firstClosed_cons ?_).symm
      intro line' hopens hclosed
      cases hfound : beforeLast closing line' with
      | none =>
        obtain ⟨head, hoccurs⟩ := Text.isInfix_iff_exists_prefix.1 hclosed
        exact Text.beforeLast_eq_none hfound hoccurs
      | some found =>
        have hsome := bind_dropWord_eq_some_iff.2 ⟨line', hopens, hfound⟩
        rw [htried] at hsome
        cases hsome

/-! ## Tags in the fields -/

def openingTag (tag : String) : List Char := ("<" ++ tag ++ ">").toList

def closingTag (tag : String) : List Char := ("</" ++ tag ++ ">").toList

/-- Whether neither tag of the elements of a name stands in the text. -/
structure Untagged (tag text : String) : Prop where
  opening : ¬ openingTag tag <:+: text.toList
  closing : ¬ closingTag tag <:+: text.toList

/-- Whether the element that is found shares its line with no other: behind its opening tag the
element is closed once, and not opened again before that. If none is found, this holds as well. -/
def StandsApart (tag start : String) (text : List Char) : Prop :=
  ∀ line, FirstClosed (openingTag tag ++ start.toList) (closingTag tag) text line →
    ∃ value, OccursOnce (closingTag tag) line value ∧ ¬ openingTag tag <:+: value

theorem openingTag_eq (tag : String) : openingTag tag = '<' :: (tag.toList ++ ['>']) := by
  have hopen : "<".toList = ['<'] := rfl
  have hclose : ">".toList = ['>'] := rfl
  rw [openingTag, String.toList_append, String.toList_append, hopen, hclose]
  rfl

theorem closingTag_eq (tag : String) : closingTag tag = '<' :: ('/' :: tag.toList ++ ['>']) := by
  have hopen : "</".toList = ['<', '/'] := rfl
  have hclose : ">".toList = ['>'] := rfl
  rw [closingTag, String.toList_append, String.toList_append, hopen, hclose]
  rfl

theorem untagged_of_not_mem {tag text : String} (h : '<' ∉ text.toList) : Untagged tag text := by
  refine ⟨fun hopens => h (hopens.subset ?_), fun hcloses => h (hcloses.subset ?_)⟩
  · rw [openingTag_eq]
    exact List.mem_cons_self
  · rw [closingTag_eq]
    exact List.mem_cons_self

theorem content_eq (text : List Char) (tag start : String) : Descriptor.content text tag start =
    ((element? (openingTag tag ++ start.toList) (closingTag tag) text).map String.ofList).getD
      unknown := by
  rw [Descriptor.content, String.toList_append]
  rfl

/-- **A field shows no tag** just if its element stands apart. -/
theorem untagged_content_iff {tag : String} (htag : '<' ∉ tag.toList) (text : List Char)
    (start : String) :
    Untagged tag (Descriptor.content text tag start) ↔ StandsApart tag start text := by
  have hopening : openingTag tag ++ start.toList ≠ [] := by simp [openingTag_eq]
  have hbody : '<' ∉ '/' :: tag.toList ++ ['>'] := by simp [htag]
  have honce : ∀ line value, OccursOnce (closingTag tag) line value ↔
      beforeLast (closingTag tag) line = some value ∧ ¬ closingTag tag <:+: value := by
    intro line value
    rw [closingTag_eq]
    exact Text.occursOnce_iff hbody
  rw [content_eq]
  cases hfound : element? (openingTag tag ++ start.toList) (closingTag tag) text with
  | none =>
    refine ⟨fun _ line hfirst => ?_, fun _ => untagged_of_not_mem (by decide)⟩
    cases hlast : beforeLast (closingTag tag) line with
    | none =>
      obtain ⟨head, hoccurs⟩ := Text.isInfix_iff_exists_prefix.1 hfirst.closed
      exact absurd hoccurs (Text.beforeLast_eq_none hlast)
    | some value =>
      rw [(element?_eq_some_iff hopening).2 ⟨line, hfirst, hlast⟩] at hfound
      cases hfound
  | some value =>
    obtain ⟨line, hfirst, hlast⟩ := (element?_eq_some_iff hopening).1 hfound
    rw [Option.map_some, Option.getD_some]
    constructor
    · rintro ⟨hopens, hcloses⟩
      rw [String.toList_ofList] at hopens hcloses
      intro line' hfirst'
      rw [hfirst'.line_eq hfirst]
      exact ⟨value, (honce line value).2 ⟨hlast, hcloses⟩, hopens⟩
    · intro happart
      obtain ⟨value', hvalue, hopens⟩ := happart line hfirst
      obtain ⟨hlast', hcloses⟩ := (honce line value').1 hvalue
      rw [hlast, Option.some.injEq] at hlast'
      subst hlast'
      exact ⟨by rwa [String.toList_ofList], by rwa [String.toList_ofList]⟩

/-- **A descriptor shows no tag of its elements** just if each of them stands apart in the text that
it is read from, the first project description up to the dependencies. -/
theorem ofArchive_untagged {group : String} {archive : Archive} {d : Descriptor}
    (h : ofArchive group archive = .ok d) : ∃ project,
    archive.entryEndingIn? projectEnding = some project ∧
      let text := generalPart (Utf8.decodeLossy project.content).toList
      (Untagged "artifactId" d.name ↔ StandsApart "artifactId" "" text) ∧
        (Untagged "version" d.version ↔ StandsApart "version" "" text) ∧
        (Untagged "groupId" d.modelVersion ↔ StandsApart "groupId" group text) := by
  unfold ofArchive at h
  split at h
  · cases h
  · cases h
  · rename_i project manifest hproject hmanifest
    cases h
    exact ⟨project, hproject, untagged_content_iff (by decide) _ _,
      untagged_content_iff (by decide) _ _, untagged_content_iff (by decide) _ _⟩

/-- An archive whose project description names a parent before the project itself. -/
def withParent (between : String) : Archive :=
  let text := "<parent><artifactId>base</artifactId></parent>" ++ between ++
    "<artifactId>lib</artifactId>"
  ⟨1, [⟨"META-INF/pom.xml", 2, Utf8.encode text⟩, ⟨Archive.manifestPath, 5, []⟩]⟩

/-- On one line, the two names are taken for one with the tags between them; on two lines the first
one is read. -/
theorem ofArchive_untagged_oneLine :
    (ofArchive defaultGroup (withParent "") =
        .ok ⟨"base</artifactId></parent><artifactId>lib", "unknown", 5, "unknown"⟩ ∧
      ∃ project, (withParent "").entryEndingIn? projectEnding = some project ∧
        ¬ StandsApart "artifactId" "" (generalPart (Utf8.decodeLossy project.content).toList)) ∧
    (ofArchive defaultGroup (withParent "\n") = .ok ⟨"base", "unknown", 5, "unknown"⟩ ∧
      ∃ project, (withParent "\n").entryEndingIn? projectEnding = some project ∧
        StandsApart "artifactId" "" (generalPart (Utf8.decodeLossy project.content).toList)) := by
  have hone : ofArchive defaultGroup (withParent "") =
      .ok ⟨"base</artifactId></parent><artifactId>lib", "unknown", 5, "unknown"⟩ := by
    decide +kernel
  have htwo : ofArchive defaultGroup (withParent "\n") = .ok ⟨"base", "unknown", 5, "unknown"⟩ := by
    decide +kernel
  have htagged : ¬ Untagged "artifactId" "base</artifactId></parent><artifactId>lib" := fun h =>
    h.closing ⟨"base".toList, "</parent><artifactId>lib".toList, by decide⟩
  obtain ⟨project, hproject, hname, -⟩ := ofArchive_untagged hone
  obtain ⟨project', hproject', hname', -⟩ := ofArchive_untagged htwo
  exact ⟨⟨hone, project, hproject, fun hapart => htagged (hname.2 hapart)⟩,
    htwo, project', hproject', hname'.1 (untagged_of_not_mem (by decide))⟩

end Mixins.Descriptor
