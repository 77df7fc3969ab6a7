import Mixins.FileSystem
import Mixins.Proofs.Path.Sibling

/-!
# What a replacement does to files

The operating system is known by its laws only: what creating directories, writing a file and moving
a file may change, when they succeed and when they fail. A write may stop anywhere and leave the
file in any shape, and there may be links.

A write to a link changes the file that the link stands for, wherever that is. In any state, these
and the file at the path itself are all that a replacement changes. At a temporary sibling that is
no link, which is what `Clear` says, they are none but the temporary sibling.

* `Usual` — the laws.
* `Usual.confined_ok`, `Usual.confined_error` — what a replacement may change in any state.
* `Usual.spared` — what is left by a replacement that fails.
* `Usual.replaced` — what is left by one that succeeds.
-/

namespace Mixins.FileSystem

open FileTree (names)
open Utf8 (Bytes)

/-! ## What can be observed -/

/-- What is at a location. -/
inductive Entry where
  | absent
  | directory
  /-- A regular file, which may be alone or have other names as well. -/
  | file (content : Bytes) (alone : Bool)
  /-- A symbolic link, a device or a pipe. -/
  | special
  deriving DecidableEq, Repr, Inhabited

def Entry.content? : Entry → Option Bytes
  | .file content _ => some content
  | _ => none

/-- A view of the files in a state. The place of a path is where its last name stands: links on the
way are followed, but not a link at the end. A write to the path reaches further: to what a link at
the end leads to, and to the file under all of its names. -/
structure Observation (σ : Type) where
  entry : σ → Location → Entry
  place? : σ → Path → Option Location
  reaches : σ → Path → Location → Prop

namespace Observation

variable {σ : Type} (obs : Observation σ)

/-- The content of the regular file at a location. -/
def file? (s : σ) (l : Location) : Option Bytes := (obs.entry s l).content?

/-- Whether the files are unchanged but at the locations of which `on` holds. -/
def Confined (on : Location → Prop) (s s' : σ) : Prop :=
  ∀ l, ¬ on l → obs.file? s' l = obs.file? s l

/-- Whether there is no link at the place of the path. -/
def Clear (s : σ) (path : Path) : Prop :=
  ∀ l, obs.place? s path = some l →
    obs.entry s l ≠ .special ∧ ∀ content, obs.entry s l ≠ .file content false

/-- Whether no file has changed but at the locations of which `on` holds. Paths have their places
still, and no link is new. -/
structure Keeps (on : Location → Prop) (s s' : σ) : Prop where
  file : obs.Confined on s s'
  place : ∀ path l, obs.place? s path = some l → obs.place? s' path = some l
  special : ∀ l, obs.entry s' l = .special → obs.entry s l = .special

/-- Whether a file with the content has been moved from `l` to `m`. If it was moved over a link, the
link is gone, and with it the places of paths that it was on the way of. -/
structure Moved (s s' : σ) (l m : Location) (content : Bytes) : Prop where
  content : obs.file? s' m = some content
  gone : l ≠ m → obs.entry s' l = .absent
  place : obs.entry s m ≠ .special →
    ∀ path x, obs.place? s path = some x → obs.place? s' path = some x

namespace Keeps

variable {obs} {on on' : Location → Prop} {s s' s'' : σ}

theorem refl (on : Location → Prop) (s : σ) : obs.Keeps on s s :=
  ⟨fun _ _ => rfl, fun _ _ h => h, fun _ h => h⟩

theorem mono (h : obs.Keeps on s s') (hsub : ∀ l, on l → on' l) : obs.Keeps on' s s' :=
  ⟨fun l hl => h.file l (mt (hsub l) hl), h.place, h.special⟩

theorem of_none (h : obs.Keeps (fun _ => False) s s') : obs.Keeps on s s' :=
  h.mono fun _ hl => hl.elim

theorem trans (h : obs.Keeps on s s') (h' : obs.Keeps on s' s'') : obs.Keeps on s s'' where
  file l hl := (h'.file l hl).trans (h.file l hl)
  place path l hl := h'.place path l (h.place path l hl)
  special l hl := h.special l (h'.special l hl)

end Keeps

end Observation

/-! ## The laws -/

variable {σ : Type}

/-- **The usual semantics** of creating directories, writing and moving files. -/
structure Usual (fs : FileSystem σ) (obs : Observation σ) : Prop where
  /-- The place of a path has the path's last name, which is no dot and no two dots. -/
  named : ∀ {s path l}, obs.place? s path = some l → ∃ start above name,
    names path = start ++ [name] ∧ name ≠ "." ∧ name ≠ ".." ∧ l = above ++ [name]
  /-- Creating directories changes no file, whether it succeeds or not. -/
  createAll : ∀ s path, obs.Keeps (fun _ => False) s (fs.createAll s path).1
  /-- A write changes the files that it reaches only, whether it succeeds or not. -/
  write : ∀ s path content, obs.Keeps (obs.reaches s path) s (fs.write s path content).1
  /-- Without a link, this is the file at the place of the path. -/
  clear : ∀ {s path l}, obs.Clear s path → obs.reaches s path l → obs.place? s path = some l
  /-- A directory is not written to. -/
  written : ∀ {s s' path content}, fs.write s path content = (s', .ok ()) →
    ∃ l, obs.place? s path = some l ∧ obs.entry s' l ≠ .directory ∧
      (obs.Clear s path → obs.entry s' l = .file content true)
  /-- What cannot be moved stays. -/
  refused : ∀ {s s' source destination cause},
    fs.moveFile s source destination = (s', .error cause) → obs.Keeps (fun _ => False) s s'
  /-- Where a file or a link is moved, and that nothing is changed elsewhere. -/
  moved : ∀ {s s' source destination l},
    fs.moveFile s source destination = (s', .ok ()) → obs.place? s source = some l →
      obs.entry s l ≠ .directory →
        ∃ m, obs.place? s destination = some m ∧ obs.Confined (fun x => x = l ∨ x = m) s s' ∧
          ∀ content, obs.entry s l = .file content true → obs.Moved s s' l m content

/-! ## What a replacement leaves -/

/-- What is left by a replacement that succeeds: `own`, the place of the path, has the content,
nothing is at `sibling`, the place of the temporary sibling, and no other file has changed. Unless
there was a link at the path, the places are still theirs. -/
structure Replaced (obs : Observation σ) (s s' : σ) (path : Path) (content : Bytes)
    (own sibling : Location) : Prop where
  content : obs.file? s' own = some content
  gone : obs.entry s' sibling = .absent
  others : ∀ l, l ≠ own → l ≠ sibling → obs.file? s' l = obs.file? s l
  before : ∀ l, obs.place? s path = some l → l = own
  beforeSibling : ∀ l, obs.place? s path.temporary = some l → l = sibling
  places : obs.entry s own ≠ .special →
    obs.place? s' path = some own ∧ obs.place? s' path.temporary = some sibling

/-- What is left by a replacement that fails: no file has changed but the temporary sibling, and the
path has its place still. -/
structure Spared (obs : Observation σ) (s s' : σ) (path : Path) : Prop where
  others : ∀ l, obs.place? s' path.temporary ≠ some l → obs.file? s' l = obs.file? s l
  own : ∀ l, obs.place? s path = some l →
    obs.place? s' path = some l ∧ obs.file? s' l = obs.file? s l

variable {fs : FileSystem σ} {obs : Observation σ} {s s' : σ} {path : Path} {content : Bytes}
  {l m : Location}

namespace Usual

/-- **A path and its temporary sibling** never have the same place. -/
theorem place_temporary_ne (h : fs.Usual obs) (hl : obs.place? s path = some l)
    (hm : obs.place? s' path.temporary = some m) : l ≠ m := by
  obtain ⟨start, above, name, hnames, hdot, hdots, rfl⟩ := h.named hl
  obtain ⟨start', above', name', hnames', -, -, rfl⟩ := h.named hm
  obtain ⟨sibling, hother, hsibling, -⟩ := Path.temporary_of_names hnames hdot hdots
  obtain ⟨-, hname'⟩ := List.append_inj' (hsibling.symm.trans hnames') rfl
  intro hsame
  obtain ⟨-, hname⟩ := List.append_inj' hsame rfl
  exact hother ((List.singleton_injective hname').trans (List.singleton_injective hname).symm)

theorem spared_of_keeps (h : fs.Usual obs)
    (hkeeps : obs.Keeps (obs.place? s' path.temporary = some ·) s s') : Spared obs s s' path where
  others := hkeeps.file
  own l hl := by
    have hplace := hkeeps.place path l hl
    exact ⟨hplace, hkeeps.file l fun htemporary => h.place_temporary_ne hplace htemporary rfl⟩

theorem createParents_keeps (h : fs.Usual obs) (on : Location → Prop) (s : σ) (path : Path) :
    obs.Keeps on s (fs.createParents s path).1 := by
  unfold createParents
  split
  · exact .refl on s
  · exact (h.createAll s _).of_none

/-! ### In any state -/

/-- What a replacement that fails does after the directories are there. -/
theorem keeps_of_error (h : fs.Usual obs) {cause : FileError}
    (hreplace : fs.replace s path content = (s', .error cause)) :
    obs.Keeps (obs.reaches (fs.createParents s path).1 path.temporary)
      (fs.createParents s path).1 s' := by
  cases replacement_of_eq hreplace with
  | noDirectory create =>
    rw [create]
    exact .refl _ s'
  | @notWritten s₁ _ _ create write =>
    -- the write may have stopped halfway
    rw [create]
    have hwritten := h.write s₁ path.temporary content
    rwa [write] at hwritten
  | @notMoved s₁ _ _ _ create write move =>
    rw [create]
    have hwritten := h.write s₁ path.temporary content
    rw [write] at hwritten
    exact hwritten.trans (h.refused move).of_none

/-- What a replacement that succeeds does: the content is written to the temporary sibling, and what
is there is then moved to the path. -/
theorem moved_of_ok (h : fs.Usual obs) (hreplace : fs.replace s path content = (s', .ok ())) :
    let s₁ := (fs.createParents s path).1
    ∃ s₂ own sibling, obs.Keeps (obs.reaches s₁ path.temporary) s s₂ ∧
      obs.place? s₁ path.temporary = some sibling ∧
      obs.place? s₂ path.temporary = some sibling ∧ obs.place? s₂ path = some own ∧
      obs.Confined (fun l => l = sibling ∨ l = own) s₂ s' ∧
      (obs.Clear s₁ path.temporary → obs.Moved s₂ s' sibling own content) := by
  intro s₁
  cases replacement_of_eq hreplace with
  | @done _ s₂ _ create write move =>
    have hparents := h.createParents_keeps (obs.reaches s₁ path.temporary) s path
    have hwritten := h.write s₁ path.temporary content
    obtain rfl : _ = s₁ := congrArg Prod.fst create.symm
    rw [write] at hwritten
    obtain ⟨sibling, hplace, hentry, hfile⟩ := h.written write
    have hsibling := hwritten.place _ _ hplace
    obtain ⟨own, hown, hconfined, hlone⟩ := h.moved move hsibling hentry
    exact ⟨s₂, own, sibling, hparents.trans hwritten, hplace, hsibling, hown, hconfined,
      fun hclear => hlone content (hfile hclear)⟩

/-- **A replacement that fails**, at whatever step, spares all files but the temporary one. -/
theorem spared (h : fs.Usual obs) {cause : FileError}
    (hclear : obs.Clear (fs.createParents s path).1 path.temporary)
    (hreplace : fs.replace s path content = (s', .error cause)) : Spared obs s s' path := by
  have hparents := h.createParents_keeps (obs.place? s' path.temporary = some ·) s path
  have hkeeps := h.keeps_of_error hreplace
  -- what the write reaches is the temporary sibling, then and in the end
  have hreached : ∀ l, obs.reaches (fs.createParents s path).1 path.temporary l →
      obs.place? s' path.temporary = some l :=
    fun l hl => hkeeps.place path.temporary l (h.clear hclear hl)
  exact h.spared_of_keeps (hparents.trans (hkeeps.mono hreached))

/-- **A replacement that succeeds** puts the content at the path and nothing else anywhere. -/
theorem replaced (h : fs.Usual obs)
    (hclear : obs.Clear (fs.createParents s path).1 path.temporary)
    (hreplace : fs.replace s path content = (s', .ok ())) :
    ∃ own sibling, Replaced obs s s' path content own sibling := by
  obtain ⟨s₂, own, sibling, hkept, hplace, hsibling, hown, hconfined, hmove⟩ :=
    h.moved_of_ok hreplace
  have hmoved := hmove hclear
  have hne : own ≠ sibling := h.place_temporary_ne hown hsibling
  refine ⟨own, sibling, hmoved.content, hmoved.gone hne.symm, fun l hl hl' => ?_,
    fun l hl => ?_, fun l hl => ?_, fun hlink => ?_⟩
  · have hother : ¬ obs.reaches (fs.createParents s path).1 path.temporary l := fun hreach =>
      hl' (Option.some.inj ((h.clear hclear hreach).symm.trans hplace))
    rw [hconfined l (not_or.2 ⟨hl', hl⟩), hkept.file l hother]
  · exact Option.some.inj ((hkept.place path l hl).symm.trans hown)
  · exact Option.some.inj ((hkept.place _ l hl).symm.trans hsibling)
  · have hspecial : obs.entry s₂ own ≠ .special := fun hs => hlink (hkept.special own hs)
    exact ⟨hmoved.place hspecial path own hown, hmoved.place hspecial _ sibling hsibling⟩

end Usual

end Mixins.FileSystem
