import Mixins.Proofs.FileSystem
import Mixins.Proofs.FileTree.Reading

/-!
# File trees as file systems

A file tree keeps the usual laws, however little room there is for the content of a file. It has no
links, so every path is clear.

* `usual` — the laws.
* `read_eq_ok_iff_place` — a file is read at the place of its path.
* `read_replace` — what is read after a replacement.
-/

namespace Mixins.FileTree

open FileSystem (Entry Observation)
open Utf8 (Bytes)

variable {t t' : FileTree} {path : Path} {l : Location} {content : Bytes} {room : Option Nat}

/-! ## What is observed -/

def entry (t : FileTree) (l : Location) : Entry :=
  match t.find? l with
  | none => .absent
  | some .directory => .directory
  | some (.file content) => .file content true

/-- The location of a path that ends in a name without a slash. -/
def place? (t : FileTree) (path : Path) : Option Location :=
  match t.ending path with
  | .ok (.name l false) => some l
  | _ => none

def observation : Observation FileTree where
  entry := entry
  place? := place?
  reaches t path l := t.place? path = some l

theorem place?_eq_some_iff :
    observation.place? t path = some l ↔ t.ending path = .ok (.name l false) := by
  unfold observation place?
  dsimp only
  split
  · rename_i hending
    simp [hending]
  · rename_i hother
    simp only [reduceCtorEq, false_iff]
    exact hother l

theorem entry_eq_file_iff {alone : Bool} : t.entry l = .file content alone ↔
    t.find? l = some (.file content) ∧ alone = true := by
  unfold entry
  rcases t.find? l with _ | _ | other <;> simp [eq_comm]

theorem file?_eq_some_iff :
    observation.file? t l = some content ↔ t.find? l = some (.file content) := by
  unfold observation Observation.file? entry
  dsimp only
  rcases t.find? l with _ | _ | other <;> simp [Entry.content?]

theorem entry_ne_special : t.entry l ≠ .special := by
  unfold entry
  split <;> simp

/-- There are no links in a file tree. -/
theorem observation_clear (t : FileTree) (path : Path) : observation.Clear t path := fun _ _ =>
  ⟨entry_ne_special, fun _ hfile => nomatch (entry_eq_file_iff.1 hfile).2⟩

theorem Changed.keeps {on : Location → Prop} (h : Changed on t t') :
    observation.Keeps on t t' where
  file l hl := Option.ext fun content => by
    rw [file?_eq_some_iff, file?_eq_some_iff]
    exact h.file_iff hl content
  place _ _ hl := place?_eq_some_iff.2 (h.ending (place?_eq_some_iff.1 hl))
  special _ hl := absurd hl entry_ne_special

/-! ## The laws -/

/-- What a write changes is at the place of the path, even where it is cut short. -/
theorem write_keeps (room : Option Nat) (t : FileTree) (path : Path) (content : Bytes) :
    observation.Keeps (observation.place? t path = some ·) t (write room t path content).1 := by
  unfold write
  dsimp only
  cases hput : t.putFile path (content.take (room.getD content.length)) with
  | error cause => exact .refl _ t
  | ok t₁ =>
    obtain ⟨l, hending, hchanged, -⟩ := putFile_place hput
    exact hchanged.keeps.mono fun m hm => hm ▸ place?_eq_some_iff.2 hending

theorem moveFile_moved {source destination : Path}
    (h : t.moveFile source destination = .ok t') (hl : observation.place? t source = some l) :
    ∃ m, observation.place? t destination = some m ∧
      observation.Confined (fun x => x = l ∨ x = m) t t' ∧
      ∀ content, observation.entry t l = .file content true →
        observation.Moved t t' l m content := by
  obtain ⟨l', m, moved, hsource, hdestination, hfile, -, -, -, hfind⟩ := moveFile_eq_ok h
  have hsame := (place?_eq_some_iff.1 hl).symm.trans hsource
  rw [Except.ok.injEq, Ending.name.injEq] at hsame
  obtain ⟨rfl, -⟩ := hsame
  refine ⟨m, place?_eq_some_iff.2 hdestination, fun x hx => ?_, fun content hentry =>
    ⟨?_, fun hne => ?_, fun _ path x hplace => ?_⟩⟩
  · have hfound : t'.find? x = t.find? x := by
      rw [hfind, if_neg (not_or.1 hx).2, if_neg (not_or.1 hx).1]
    simp [observation, Observation.file?, entry, hfound]
  · have hcontent := (entry_eq_file_iff.1 hentry).1
    rw [hfile, Option.some.injEq, Node.file.injEq] at hcontent
    rw [file?_eq_some_iff, hfind, if_pos rfl, hcontent]
  · have hgone : t'.find? l = none := by rw [hfind, if_neg hne, if_pos rfl]
    simp [observation, entry, hgone]
  · exact place?_eq_some_iff.2 ((moveFile_changed h).ending (place?_eq_some_iff.1 hplace))

/-- **The laws of file trees.** -/
theorem usual (room : Option Nat) : (system room).Usual observation where
  named h := by
    obtain ⟨-, start, name, above, hnames, -, -, hdot, hdots, hl, -⟩ :=
      ending_eq_name_iff.1 (place?_eq_some_iff.1 h)
    exact ⟨start, above, name, hnames, hdot, hdots, hl⟩
  createAll t path := (createAll_changed (fun _ => False) t (withParents path)).keeps
  write t path content := write_keeps room t path content
  clear _ h := h
  written h := by
    obtain ⟨l, hending, -, hfile⟩ := putFile_place (write_eq_ok h)
    have hentry := entry_eq_file_iff.2 ⟨hfile, rfl⟩
    exact ⟨l, place?_eq_some_iff.2 hending, ne_of_eq_of_ne hentry nofun, fun _ => hentry⟩
  refused h := by
    rw [attempt_eq_error h]
    exact .refl _ _
  moved h hl _ := moveFile_moved (attempt_eq_ok h) hl

/-! ## Reading -/

theorem names_ne_nil (hne : path.text ≠ "") (hslash : endsInSlash path = false) :
    names path ≠ [] := by
  obtain ⟨front, name, htext, hfront, hname⟩ := Path.exists_front path.text.toList
  have hpath : path = ⟨String.ofList (front ++ name)⟩ :=
    Path.ext_toList (by rw [htext, String.toList_ofList])
  by_cases hnil : name = []
  · subst hnil
    rw [List.append_nil] at htext
    rcases hfront with rfl | ⟨before, rfl⟩
    · exact absurd (String.toList_inj.1 htext) hne
    · simp [endsInSlash, htext] at hslash
  · rw [hpath, hfront.names_append hname hnil]
    exact List.concat_ne_nil _ _

/-- A path that leads to a file has the file's place. -/
theorem place?_of_file (hlocate : t.locate path = .ok l) (hl : t.find? l = some (.file content)) :
    observation.place? t path = some l ∧ nameTooLong l = false := by
  obtain ⟨htext, hnames, hends⟩ := locate_eq_ok_iff.1 hlocate
  have hfile : t.find? l ≠ some .directory := by simp [hl]
  have hslash : endsInSlash path = false := Bool.eq_false_iff.2 fun h => hfile (hends h)
  have hne : path.text ≠ "" := by
    intro hempty
    simp [checkText, hempty] at htext
  obtain ⟨init, last, hsplit⟩ := (List.eq_nil_or_concat _).resolve_left (names_ne_nil hne hslash)
  rw [List.concat_eq_append] at hsplit
  rw [hsplit, List.foldlM_append, bind_eq_ok] at hnames
  obtain ⟨dir, hdir, hlast⟩ := hnames
  obtain ⟨_, hstep, ⟨⟩⟩ := foldlM_step_cons.1 hlast
  obtain ⟨hdirectory, hname⟩ := step_eq_ok_iff.1 hstep
  -- one dot and two dots lead to directories
  by_cases hdot : last = "."
  · rw [if_pos hdot] at hname
    exact absurd (hname ▸ hdirectory) hfile
  by_cases hdots : last = ".."
  · rw [if_neg hdot, if_pos hdots] at hname
    refine absurd ?_ hfile
    rcases List.eq_nil_or_concat dir with rfl | ⟨above, name, rfl⟩
    · exact hname ▸ rfl
    · rw [List.concat_eq_append] at hname hdirectory
      rw [hname, List.dropLast_concat]
      exact find?_parent (by rw [hdirectory]; simp)
  · rw [if_neg hdot, if_neg hdots] at hname
    refine ⟨place?_eq_some_iff.2 (ending_eq_name_iff.2 ⟨htext, init, last, dir, hsplit, hdir,
      hdirectory, hdot, hdots, hname.2.1, hslash.symm⟩), ?_⟩
    rw [hname.2.1, nameTooLong_concat]
    exact decide_eq_false (Nat.not_lt.2 hname.1)

/-- **A file is read** at the place of the path. -/
theorem read_eq_ok_iff_place : t.read path = .ok content ↔ ∃ l,
    observation.place? t path = some l ∧ nameTooLong l = false ∧
      observation.file? t l = some content := by
  rw [read_eq_ok_iff]
  constructor
  · rintro ⟨l, hlocate, hl⟩
    obtain ⟨hplace, hlong⟩ := place?_of_file hlocate hl
    exact ⟨l, hplace, hlong, file?_eq_some_iff.2 hl⟩
  · rintro ⟨l, hplace, hlong, hfile⟩
    have hl := file?_eq_some_iff.1 hfile
    exact ⟨l, locate_of_ending (place?_eq_some_iff.1 hplace) hlong (by simp [hl]), hl⟩

/-- A path that ends in a name which nothing has leads nowhere. -/
theorem locate_missing (hending : t.ending path = .ok (.name l false))
    (hlong : nameTooLong l = false) (hl : t.find? l = none) :
    t.locate path = .error .notFound := by
  obtain ⟨htext, init, last, dir, hnames, hdir, hfound, hdot, hdots, rfl, -⟩ :=
    ending_eq_name_iff.1 hending
  have hshort : last.utf8ByteSize ≤ maxNameSize := by
    simpa [nameTooLong] using hlong
  have hstep := step_of_name hfound ⟨hdot, hdots⟩ hshort
  rw [if_pos hl] at hstep
  rw [locate, htext, ok_bind, hnames, List.foldlM_append, hdir, ok_bind, List.foldlM_cons, hstep]
  rfl

/-- Nothing is left at the temporary sibling. -/
theorem locate_temporary (h : (system room).replace t path content = (t', .ok ())) :
    t'.locate path.temporary = .error .notFound := by
  obtain ⟨t₁, t₂, -, hwrite, hmove⟩ := replace_steps h
  obtain ⟨l, hending, hlong, -⟩ := putFile_eq_ok hwrite
  obtain ⟨l', m, moved, hsource, hdestination, -, -, -, -, hfind⟩ := moveFile_eq_ok hmove
  have hwritten := (putFile_changed hwrite).ending hending
  rw [hsource, Except.ok.injEq, Ending.name.injEq] at hwritten
  obtain ⟨rfl, -⟩ := hwritten
  have hne : m ≠ l' := (usual room).place_temporary_ne (place?_eq_some_iff.2 hdestination)
    (place?_eq_some_iff.2 hsource)
  refine locate_missing ((moveFile_changed hmove).ending hsource) hlong ?_
  rw [hfind, if_neg hne.symm, if_pos rfl]

/-- **What is read after a replacement**: the content, and nothing beside it; or the old content, if
the replacement has failed. -/
theorem read_replace (room : Option Nat) (t t' : FileTree) (path : Path) (content : Bytes) :
    ((system room).replace t path content = (t', .ok ()) →
      t'.read path = .ok content ∧ t'.locate path.temporary = .error .notFound) ∧
    ∀ cause, (system room).replace t path content = (t', .error cause) →
      ∀ old, t.read path = .ok old → t'.read path = .ok old := by
  refine ⟨fun h => ⟨(replace_eq_ok h).2, locate_temporary h⟩, fun cause h old hread => ?_⟩
  obtain ⟨l, hplace, hlong, hfile⟩ := read_eq_ok_iff_place.1 hread
  obtain ⟨hplace', hfile'⟩ := ((usual room).spared (observation_clear _ _) h).own l hplace
  exact read_eq_ok_iff_place.2 ⟨l, hplace', hlong, hfile'.trans hfile⟩

end Mixins.FileTree
