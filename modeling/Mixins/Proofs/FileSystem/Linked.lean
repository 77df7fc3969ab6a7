import Mathlib.Logic.Function.Basic
import Mixins.Proofs.FileSystem

/-!
# Files with several names

One directory in which several names may stand for the same file, as hard links do. It keeps the
usual laws. A write to a name changes the file under all of its names, so a replacement whose
temporary sibling is one of them succeeds and overwrites another file: of that a replacement is not
free, and `Clear` cannot be left out.

* `usual` — the laws.
* `replace_overwrites` — what becomes of another name of the temporary sibling.
-/

namespace Mixins.FileSystem

open Utf8 (Bytes)

/-- The numbers of the files that names stand for, and the contents of the files. -/
structure Linked where
  number? : String → Option Nat
  content : Nat → Bytes
  /-- The number of the next file that is created. -/
  next : Nat
  numbered : ∀ {name n}, number? name = some n → n < next

namespace Linked

/-- The name that a path consists of. -/
def nameOf? (path : Path) : Option String :=
  match FileTree.names path with
  | [name] => if name = "." ∨ name = ".." then none else some name
  | _ => none

/-- The directory with a name for a file, which may be there already. -/
def put (d : Linked) (name : String) (n : Nat) (hn : n < d.next) : Linked :=
  { d with
    number? := Function.update d.number? name (some n)
    numbered := by
      intro other k hk
      by_cases hother : other = name
      · subst hother
        rw [Function.update_self, Option.some.injEq] at hk
        exact hk ▸ hn
      · rw [Function.update_of_ne hother] at hk
        exact d.numbered hk }

/-- The directory without a name. -/
def drop (d : Linked) (name : String) : Linked :=
  { d with
    number? := Function.update d.number? name none
    numbered := by
      intro other k hk
      by_cases hother : other = name
      · subst hother
        simp at hk
      · rw [Function.update_of_ne hother] at hk
        exact d.numbered hk }

def setContent (d : Linked) (n : Nat) (content : Bytes) : Linked :=
  { d with content := Function.update d.content n content }

/-- The directory with room for one more file. -/
def grow (d : Linked) : Linked :=
  { d with next := d.next + 1, numbered := fun h => Nat.lt_succ_of_lt (d.numbered h) }

def write (d : Linked) (path : Path) (content : Bytes) : Linked × Except SystemError Unit :=
  match nameOf? path with
  | none => (d, .error .notFound)
  | some name =>
    match d.number? name with
    | some n => (d.setContent n content, .ok ())
    | none => ((d.grow.put name d.next (Nat.lt_succ_self _)).setContent d.next content, .ok ())

/-- Two names of one file are left as they are. -/
def moveFile (d : Linked) (source destination : Path) : Linked × Except SystemError Unit :=
  match nameOf? source, nameOf? destination with
  | some name, some name' =>
    match h : d.number? name with
    | none => (d, .error .notFound)
    | some n =>
      if d.number? name' = some n then (d, .ok ())
      else ((d.put name' n (d.numbered h)).drop name, .ok ())
  | _, _ => (d, .error .notFound)

def system : FileSystem Linked where
  createAll d _ := (d, .ok ())
  write := write
  moveFile := moveFile

open Classical in
/-- A file is alone if no other name stands for it. -/
noncomputable def entry (d : Linked) : Location → Entry
  | [] => .directory
  | [name] =>
    match d.number? name with
    | none => .absent
    | some n => .file (d.content n) (∀ other, d.number? other = some n → other = name)
  | _ => .absent

/-- Whether a write to the first name changes the file of the other: the names are the same, or they
stand for the same file. -/
def SameFile (d : Linked) (name other : String) : Prop :=
  other = name ∨ ∃ n, d.number? name = some n ∧ d.number? other = some n

noncomputable def observation : Observation Linked where
  entry := entry
  place? _ path := (nameOf? path).map ([·])
  reaches d path l := ∃ name other, nameOf? path = some name ∧ l = [other] ∧ d.SameFile name other

variable {d d' : Linked} {path : Path} {name other : String} {n : Nat} {content : Bytes}

/-! ## The laws -/

theorem nameOf?_eq_some_iff :
    nameOf? path = some name ↔ FileTree.names path = [name] ∧ name ≠ "." ∧ name ≠ ".." := by
  unfold nameOf?
  split
  · rename_i name' hnames
    by_cases hdots : name' = "." ∨ name' = ".."
    · simp only [if_pos hdots, reduceCtorEq, hnames, List.cons.injEq, and_true, false_iff, not_and]
      rintro rfl hdot hdots'
      exact hdots.elim hdot hdots'
    · simp only [if_neg hdots, Option.some.injEq, hnames, List.cons.injEq, and_true, iff_self_and]
      rintro rfl
      exact not_or.1 hdots
  · rename_i hnames
    simp only [reduceCtorEq, false_iff, not_and]
    exact fun h => absurd h (hnames name)

theorem place?_eq_some_iff {l : Location} :
    observation.place? d path = some l ↔ ∃ name, nameOf? path = some name ∧ l = [name] := by
  simp only [observation, Option.map_eq_some_iff, @eq_comm _ l]

theorem file?_name (d : Linked) (name : String) :
    observation.file? d [name] = (d.number? name).map d.content := by
  unfold observation Observation.file? entry
  dsimp only
  cases d.number? name <;> rfl

theorem entry_ne_special (d : Linked) (l : Location) : observation.entry d l ≠ .special := by
  unfold observation entry
  dsimp only
  split
  · simp
  · split <;> simp
  · simp

theorem entry_name_ne_directory : observation.entry d [name] ≠ .directory := by
  unfold observation entry
  dsimp only
  split <;> simp

theorem entry_eq_file_iff {alone : Bool} : observation.entry d [name] = .file content alone ↔
    ∃ n, d.number? name = some n ∧ d.content n = content ∧
      (alone = true ↔ ∀ other, d.number? other = some n → other = name) := by
  unfold observation entry
  dsimp only
  cases d.number? name with
  | none => simp
  | some n => cases alone <;> simp

/-- What is at each name, is at each location. -/
theorem keeps_of_names {on : Location → Prop}
    (h : ∀ name, ¬ on [name] → (d'.number? name).map d'.content = (d.number? name).map d.content) :
    observation.Keeps on d d' where
  file l hl := by
    match l with
    | [] => rfl
    | [name] => rw [file?_name, file?_name, h name hl]
    | _ :: _ :: _ => rfl
  place _ _ hl := hl
  special l hl := absurd hl (entry_ne_special d' l)

/-- At a clear path there is a file with one name. -/
theorem alone_of_clear (hclear : observation.Clear d path) (hname : nameOf? path = some name)
    (hn : d.number? name = some n) : ∀ other, d.number? other = some n → other = name := by
  by_contra hshared
  exact (hclear [name] (place?_eq_some_iff.2 ⟨name, hname, rfl⟩)).2 (d.content n)
    (entry_eq_file_iff.2 ⟨n, hn, rfl, by simpa using hshared⟩)

theorem write_keeps (d : Linked) (path : Path) (content : Bytes) :
    observation.Keeps (observation.reaches d path) d (d.write path content).1 := by
  unfold write
  split
  · exact .refl _ d
  · rename_i name hname
    refine keeps_of_names fun other hother => ?_
    have hother' : ¬ d.SameFile name other := fun hsame => hother ⟨name, other, hname, rfl, hsame⟩
    obtain ⟨hne, hnumber⟩ := not_or.1 hother'
    split
    · rename_i n hn
      cases hk : d.number? other with
      | none => simp [setContent, hk]
      | some k =>
        have hkn : k ≠ n := fun hsame => hnumber ⟨n, hn, hsame ▸ hk⟩
        simp [setContent, hk, hkn]
    · cases hk : d.number? other with
      | none => simp [setContent, put, grow, hne, hk]
      | some k =>
        have hkn : k ≠ d.next := (d.numbered hk).ne
        simp [setContent, put, grow, hne, hk, hkn]

theorem reaches_clear {l : Location} (hclear : observation.Clear d path)
    (h : observation.reaches d path l) : observation.place? d path = some l := by
  obtain ⟨name, other, hname, rfl, hsame⟩ := h
  refine place?_eq_some_iff.2 ⟨name, hname, ?_⟩
  rcases hsame with rfl | ⟨n, hn, hother⟩
  · rfl
  · rw [alone_of_clear hclear hname hn other hother]

theorem write_written (h : d.write path content = (d', .ok ())) :
    ∃ l, observation.place? d path = some l ∧ observation.entry d' l ≠ .directory ∧
      (observation.Clear d path → observation.entry d' l = .file content true) := by
  unfold write at h
  split at h
  · simp at h
  · rename_i name hname
    refine ⟨[name], place?_eq_some_iff.2 ⟨name, hname, rfl⟩, entry_name_ne_directory, ?_⟩
    intro hclear
    refine entry_eq_file_iff.2 ?_
    split at h
    · rename_i n hn
      simp only [Prod.mk.injEq, and_true] at h
      subst h
      have halone := alone_of_clear hclear hname hn
      exact ⟨n, hn, by simp [setContent], by simpa [setContent] using halone⟩
    · simp only [Prod.mk.injEq, and_true] at h
      subst h
      refine ⟨d.next, by simp [setContent, put], by simp [setContent], ?_⟩
      simp only [true_iff]
      intro other hother
      by_contra hne
      simp only [setContent, put, grow, Function.update_of_ne hne] at hother
      exact absurd (d.numbered hother) (Nat.lt_irrefl _)

/-- What a name stands for after a file has been moved from another name. -/
theorem file?_moved {name' : String} (hn : d.number? name = some n) (hne : name' ≠ name) :
    observation.file? ((d.put name' n (d.numbered hn)).drop name) [name'] = some (d.content n) ∧
    observation.entry ((d.put name' n (d.numbered hn)).drop name) [name] = .absent ∧
    ∀ x, x ≠ [name] → x ≠ [name'] →
      observation.file? ((d.put name' n (d.numbered hn)).drop name) x = observation.file? d x := by
  refine ⟨by simp [file?_name, drop, put, hne], by simp [observation, entry, drop, put],
    fun x hx hx' => ?_⟩
  match x with
  | [] => rfl
  | [other] =>
    have hother : other ≠ name := fun hsame => hx (hsame ▸ rfl)
    have hother' : other ≠ name' := fun hsame => hx' (hsame ▸ rfl)
    simp [file?_name, drop, put, hother, hother']
  | _ :: _ :: _ => rfl

theorem moveFile_moved {source destination : Path} {l : Location}
    (h : d.moveFile source destination = (d', .ok ()))
    (hl : observation.place? d source = some l) :
    ∃ m, observation.place? d destination = some m ∧
      observation.Confined (fun x => x = l ∨ x = m) d d' ∧
      ∀ content, observation.entry d l = .file content true →
        observation.Moved d d' l m content := by
  obtain ⟨name, hname, rfl⟩ := place?_eq_some_iff.1 hl
  unfold moveFile at h
  rw [hname] at h
  cases hname' : nameOf? destination with
  | none => simp [hname'] at h
  | some name' =>
    refine ⟨[name'], place?_eq_some_iff.2 ⟨name', hname', rfl⟩, ?_⟩
    simp only [hname'] at h
    split at h
    · simp at h
    · rename_i n hn
      split at h
      · -- two names of one file are left as they are
        rename_i hsame
        simp only [Prod.mk.injEq, and_true] at h
        subst h
        refine ⟨fun _ _ => rfl, fun content hfile => ?_⟩
        obtain ⟨k, hk, rfl, halone⟩ := entry_eq_file_iff.1 hfile
        obtain rfl : n = k := Option.some.inj (hn.symm.trans hk)
        obtain rfl : name' = name := halone.1 rfl name' hsame
        exact ⟨by rw [file?_name, hn, Option.map_some], fun hne => absurd rfl hne,
          fun _ _ _ hl => hl⟩
      · rename_i hdiffer
        simp only [Prod.mk.injEq, and_true] at h
        subst h
        have hne : name' ≠ name := fun hsame => hdiffer (hsame ▸ hn)
        obtain ⟨hcontent, hgone, hothers⟩ := file?_moved hn hne
        refine ⟨fun x hx => hothers x (not_or.1 hx).1 (not_or.1 hx).2, fun content hfile => ?_⟩
        obtain ⟨k, hk, rfl, -⟩ := entry_eq_file_iff.1 hfile
        obtain rfl : n = k := Option.some.inj (hn.symm.trans hk)
        exact ⟨hcontent, fun _ => hgone, fun _ _ _ hl => hl⟩

theorem moveFile_refused {source destination : Path} {cause : SystemError}
    (h : d.moveFile source destination = (d', .error cause)) : d' = d := by
  unfold moveFile at h
  split at h
  · split at h
    · simp_all
    · split at h <;> simp at h
  · simp_all

/-- **The laws** hold where files have several names. -/
theorem usual : system.Usual observation where
  named h := by
    obtain ⟨name, hname, rfl⟩ := place?_eq_some_iff.1 h
    obtain ⟨hnames, hdot, hdots⟩ := nameOf?_eq_some_iff.1 hname
    exact ⟨[], [], name, hnames, hdot, hdots, rfl⟩
  createAll d _ := .refl _ d
  write d path content := write_keeps d path content
  clear hclear h := reaches_clear hclear h
  written h := write_written h
  refused h := by
    rw [moveFile_refused h]
    exact .refl _ _
  moved h hl _ := moveFile_moved h hl

/-! ## Another name for the temporary sibling -/

theorem moveFile_eq {source destination : Path} {name' : String}
    (hname : nameOf? source = some name) (hname' : nameOf? destination = some name')
    (hn : d.number? name = some n) (hother : d.number? name' ≠ some n) :
    d.moveFile source destination = ((d.put name' n (d.numbered hn)).drop name, .ok ()) := by
  unfold moveFile
  rw [hname, hname']
  dsimp only
  split
  · simp_all
  · rename_i k hk
    obtain rfl : n = k := Option.some.inj (hn.symm.trans hk)
    rw [if_neg hother]

/-- **A replacement overwrites** the file of another name, if that is a name of the temporary
sibling too: it succeeds, and the other name has the content as well. -/
theorem replace_overwrites {sibling : String} (content : Bytes) (hname : nameOf? path = some name)
    (hsibling : nameOf? path.temporary = some sibling) (hn : d.number? sibling = some n)
    (hother : d.number? other = some n) (hne : other ≠ sibling) (hown : d.number? name ≠ some n) :
    ∃ d', system.replace d path content = (d', .ok ()) ∧
      observation.file? d' [other] = some content := by
  have hcreate : system.createParents d path = (d, .ok ()) := by
    unfold createParents
    split <;> rfl
  have hwrite : system.write d path.temporary content = (d.setContent n content, .ok ()) := by
    simp only [system, write, hsibling, hn]
  obtain ⟨d', hmove, rfl⟩ : ∃ d',
      system.moveFile (d.setContent n content) path.temporary path = (d', .ok ()) ∧
        d' = ((d.setContent n content).put name n (d.numbered hn)).drop sibling :=
    ⟨_, moveFile_eq (d := d.setContent n content) hsibling hname hn hown, rfl⟩
  have hname_ne : other ≠ name := fun hsame => hown (hsame ▸ hother)
  refine ⟨_, by simp only [replace, hcreate, hwrite, hmove]; rfl, ?_⟩
  simp [file?_name, drop, put, setContent, hne, hname_ne, hother]

end Linked

end Mixins.FileSystem
