import Mixins.Proofs.FileTree.Changed

/-!
# Replacing files

A file is replaced as a whole. Where that succeeds, the file is read back; whether it does or not,
only the file and its temporary sibling change, and directories may be new.

* `putFile_eq_ok`, `moveFile_eq_ok` — what a successful operation does.
* `replace_eq_ok`, `replace_eq_error` — what a replacement leaves alone, and where the path leads.
-/

namespace Mixins.FileTree

open Utf8 (Bytes)

variable {t t' : FileTree} {path : Path}

theorem put?_eq_some {l : Location} {n : Node} (h : t.put? l n = some t') :
    t'.start = t.start ∧ ∀ m, t'.find? m = if m = l then some n else t.find? m := by
  unfold put? at h
  split at h
  · rename_i hadmits
    cases h
    exact ⟨rfl, t.find?_put l n hadmits⟩
  · cases h

theorem erase_start (t : FileTree) (l : Location) : (t.erase l).start = t.start := by
  unfold erase
  split <;> rfl

/-! ## New directories -/

theorem createDirectory_changed {on : Location → Prop} (h : t.createDirectory path = .ok t') :
    Changed on t t' := by
  simp only [createDirectory, bind_eq_ok] at h
  obtain ⟨ending, -, h⟩ := h
  split at h
  · cases h
  · split at h
    · cases h
    · split at h
      · cases h
      · rename_i l _ _ hnone
        cases hput : t.put? l .directory with
        | none => simp [hput, orElse] at h
        | some t₁ =>
          simp only [hput, orElse, Except.ok.injEq] at h
          subst h
          obtain ⟨hstart, hfind⟩ := put?_eq_some hput
          refine ⟨hstart, fun m => ?_⟩
          by_cases hm : m = l
          · subst hm
            exact .inr (.inl ⟨Decidable.not_not.1 hnone, by rw [hfind, if_pos rfl]⟩)
          · exact .inl (by rw [hfind, if_neg hm])

theorem createAll_changed (on : Location → Prop) (t : FileTree) (paths : List Path) :
    Changed on t (t.createAll paths).1 := by
  induction paths generalizing t with
  | nil => exact .refl on t
  | cons path above ih =>
    unfold createAll
    split
    · exact .refl on t
    · cases hcreate : t.createDirectory path with
      | ok t₁ => exact createDirectory_changed hcreate
      | error cause =>
        cases cause with
        | notFound =>
          have habove := ih t
          dsimp only
          cases hrest : t.createAll above with
          | mk t₁ done =>
            rw [hrest] at habove
            cases done with
            | error cause => exact habove
            | ok _ =>
              dsimp only
              cases hagain : t₁.createDirectory path with
              | ok t₂ => exact habove.trans (createDirectory_changed hagain)
              | error cause => exact habove
        | _ => exact .refl on t

theorem createParents_changed (on : Location → Prop) (t : FileTree) (path : Path) :
    Changed on t (t.createParents path).1 := by
  unfold createParents FileSystem.createParents
  split
  · exact .refl on t
  · exact createAll_changed on t _

/-! ## Files -/

theorem putFile_eq_ok {content : Bytes} (h : t.putFile path content = .ok t') :
    ∃ l, t.ending path = .ok (.name l false) ∧ nameTooLong l = false ∧
      t.find? l ≠ some .directory ∧ t'.start = t.start ∧
      ∀ m, t'.find? m = if m = l then some (.file content) else t.find? m := by
  simp only [putFile, bind_eq_ok] at h
  obtain ⟨ending, hending, h⟩ := h
  split at h
  · cases h
  · cases h
  · rename_i l
    split at h
    · cases h
    · rename_i hlong
      split at h
      · cases h
      · rename_i hnot
        cases hput : t.put? l (.file content) with
        | none => simp [hput, orElse] at h
        | some t₁ =>
          simp only [hput, orElse, Except.ok.injEq] at h
          subst h
          obtain ⟨hstart, hfind⟩ := put?_eq_some hput
          exact ⟨l, hending, by simpa using hlong, hnot, hstart, hfind⟩

/-- A file is put at one location and taken from another. -/
theorem put_erase_eq_ok {l m : Location} {content : Bytes} (hl : t.find? l = some (.file content))
    (hne : m ≠ l)
    (h : (orElse .notDirectory (t.put? m (.file content))).map (·.erase l) = .ok t') :
    t'.start = t.start ∧
      ∀ x, t'.find? x =
        if x = m then some (.file content) else if x = l then none else t.find? x := by
  cases hput : t.put? m (.file content) with
  | none => simp [hput, orElse, Except.map] at h
  | some t₁ =>
    simp only [hput, orElse, Except.map, Except.ok.injEq] at h
    subst h
    obtain ⟨hstart, hfind⟩ := put?_eq_some hput
    have hfile : t₁.find? l ≠ some .directory := by
      rw [hfind, if_neg (Ne.symm hne), hl]
      simp
    refine ⟨(t₁.erase_start l).trans hstart, fun x => ?_⟩
    rw [find?_erase t₁ hfile, hfind]
    by_cases hx : x = l
    · subst hx
      rw [if_pos rfl, if_neg (Ne.symm hne), if_pos rfl]
    · rw [if_neg hx, if_neg hx]

/-- A file that is moved is no longer where it was, and it is where it was moved to. -/
theorem moveFile_eq_ok {source destination : Path} (h : t.moveFile source destination = .ok t') :
    ∃ l m content, t.ending source = .ok (.name l false) ∧
      t.ending destination = .ok (.name m false) ∧ t.find? l = some (.file content) ∧
      nameTooLong m = false ∧ t.find? m ≠ some .directory ∧ t'.start = t.start ∧
      ∀ x, t'.find? x =
        if x = m then some (.file content) else if x = l then none else t.find? x := by
  simp only [moveFile, bind_eq_ok] at h
  obtain ⟨ending, hsource, ending', hdestination, h⟩ := h
  cases ending with
  | fixed => cases h
  | name l slash =>
    cases ending' with
    | fixed => cases h
    | name m slash' =>
      dsimp only at h
      split at h
      · cases h
      · cases hl : t.find? l with
        | none => simp [hl] at h
        | some node =>
          cases node with
          | directory => simp [hl] at h
          | file content =>
            simp only [hl] at h
            split at h
            · cases h
            · rename_i hlong
              split at h
              · cases h
              · rename_i hslash
                simp only [Bool.or_eq_true, not_or, Bool.not_eq_true] at hslash
                obtain ⟨rfl, rfl⟩ := hslash
                split at h
                · cases h
                · rename_i hnot
                  refine ⟨l, m, content, hsource, hdestination, hl, by simpa using hlong, hnot, ?_⟩
                  split at h
                  · rename_i hsame
                    cases h
                    refine ⟨rfl, fun x => ?_⟩
                    by_cases hx : x = m
                    · rw [if_pos hx, hx, hsame, hl]
                    · rw [if_neg hx, if_neg (hsame ▸ hx)]
                  · rename_i hne
                    exact put_erase_eq_ok hl hne h

/-- Whether the path ends in a name at the location. -/
def EndsAt (t : FileTree) (path : Path) (l : Location) : Prop :=
  ∃ slash, t.ending path = .ok (.name l slash)

theorem Changed.endsAt {on : Location → Prop} (h : Changed on t t') {l : Location}
    (hl : t.EndsAt path l) : t'.EndsAt path l := by
  obtain ⟨slash, hending⟩ := hl
  exact ⟨slash, h.ending hending⟩

/-- Where a file has been put, and nowhere else, the tree has changed. -/
theorem putFile_place {content : Bytes} (h : t.putFile path content = .ok t') :
    ∃ l, t.ending path = .ok (.name l false) ∧ Changed (· = l) t t' ∧
      t'.find? l = some (.file content) := by
  obtain ⟨l, hending, -, hnot, hstart, hfind⟩ := putFile_eq_ok h
  refine ⟨l, hending, ⟨hstart, fun m => ?_⟩, by rw [hfind, if_pos rfl]⟩
  by_cases hm : m = l
  · exact .inr (.inr ⟨hm, hm ▸ hnot⟩)
  · exact .inl (by rw [hfind, if_neg hm])

theorem putFile_changed {content : Bytes} (h : t.putFile path content = .ok t') :
    Changed (t'.EndsAt path) t t' := by
  obtain ⟨l, hending, hchanged, -⟩ := putFile_place h
  have hends : t'.EndsAt path l := hchanged.endsAt ⟨_, hending⟩
  exact hchanged.mono fun m hm => hm ▸ hends

theorem moveFile_changed {source destination : Path}
    (h : t.moveFile source destination = .ok t') :
    Changed (fun l => t'.EndsAt source l ∨ t'.EndsAt destination l) t t' := by
  obtain ⟨l, m, content, hsource, hdestination, hl, -, hnot, hstart, hfind⟩ := moveFile_eq_ok h
  have hchanged : Changed (fun x => x = l ∨ x = m) t t' := by
    refine ⟨hstart, fun x => ?_⟩
    by_cases hx : x = l ∨ x = m
    · refine .inr (.inr ⟨hx, ?_⟩)
      rcases hx with rfl | rfl
      · simp [hl]
      · exact hnot
    · rw [not_or] at hx
      exact .inl (by rw [hfind, if_neg hx.2, if_neg hx.1])
  refine hchanged.mono ?_
  rintro x (rfl | rfl)
  · exact .inl (hchanged.endsAt ⟨_, hsource⟩)
  · exact .inr (hchanged.endsAt ⟨_, hdestination⟩)

/-! ## Replacements -/

theorem write_none (t : FileTree) (path : Path) (content : Bytes) :
    write none t path content = t.attempt (t.putFile path content) := by
  simp only [write, Option.getD_none, List.take_length]
  cases t.putFile path content <;> simp [attempt]

/-- A write that succeeds has put all of the content. -/
theorem write_eq_ok {room : Option Nat} {content : Bytes}
    (h : write room t path content = (t', .ok ())) : t.putFile path content = .ok t' := by
  unfold write at h
  cases hput : t.putFile path (content.take (room.getD content.length)) with
  | error cause => simp [hput] at h
  | ok t₁ =>
    simp only [hput, Prod.mk.injEq] at h
    obtain ⟨rfl, hdone⟩ := h
    split at hdone
    · rename_i hall
      rw [← hput, hall]
    · cases hdone

/-- What is written changes the file only, even where it is cut short. -/
theorem write_changed {room : Option Nat} {content : Bytes} {done : Except SystemError Unit}
    (h : write room t path content = (t', done)) : Changed (t'.EndsAt path) t t' := by
  unfold write at h
  dsimp only at h
  cases hput : t.putFile path (content.take (room.getD content.length)) with
  | error cause =>
    simp only [hput, Prod.mk.injEq] at h
    exact h.1 ▸ .refl _ t
  | ok t₁ =>
    simp only [hput, Prod.mk.injEq] at h
    exact h.1 ▸ putFile_changed hput

theorem attempt_eq_error {result : Except SystemError FileTree} {cause : SystemError}
    (h : t.attempt result = (t', .error cause)) : t' = t := by
  unfold attempt at h
  split at h <;> simp_all

theorem attempt_eq_ok {result : Except SystemError FileTree}
    (h : t.attempt result = (t', .ok ())) : result = .ok t' := by
  unfold attempt at h
  split at h <;> simp_all

/-- The replacement of a file whose directory is there. -/
def replaceThere (t : FileTree) (path : Path) (content : Bytes) :
    FileTree × Except FileError Unit :=
  match t.putFile path.temporary content with
  | .error cause => (t, .error (.writeTemporary path.temporary cause))
  | .ok t =>
    match t.moveFile path.temporary path with
    | .error cause => (t, .error (.moveIntoPlace path.temporary path cause))
    | .ok t => (t, .ok ())

theorem replace_eq (t : FileTree) (path : Path) (content : Bytes) : t.replace path content =
    match t.createParents path with
    | (t, .error cause) => (t, .error cause)
    | (t, .ok ()) => t.replaceThere path content := by
  have hwrite : ∀ t, (system none).write t path.temporary content =
      t.attempt (t.putFile path.temporary content) := fun t => write_none t _ _
  have hmove : ∀ t, (system none).moveFile t path.temporary path =
      t.attempt (t.moveFile path.temporary path) := fun _ => rfl
  unfold replace FileSystem.replace replaceThere createParents
  rcases (system none).createParents t path with ⟨t₁, cause | _⟩
  · rfl
  · simp only [hwrite]
    cases t₁.putFile path.temporary content with
    | error cause => rfl
    | ok t₂ =>
      simp only [attempt, hmove]
      cases t₂.moveFile path.temporary path <;> rfl

/-- **A replacement that fails** leaves everything alone but the temporary file. -/
theorem replace_eq_error {room : Option Nat} {content : Bytes} {cause : FileError}
    (h : (system room).replace t path content = (t', .error cause)) :
    Changed (t'.EndsAt path.temporary) t t' := by
  have hparents := fun on => createParents_changed on t path
  cases FileSystem.replacement_of_eq h with
  | noDirectory create =>
    have hcreate := hparents (t'.EndsAt path.temporary)
    rwa [show t.createParents path = _ from create] at hcreate
  | notWritten create write =>
    rw [show t.createParents path = _ from create] at hparents
    exact (hparents _).trans (write_changed write)
  | notMoved create write move =>
    rw [show t.createParents path = _ from create] at hparents
    rw [attempt_eq_error move]
    exact (hparents _).trans (putFile_changed (write_eq_ok write))

/-- A replacement that succeeds has had room enough. -/
theorem replace_steps {room : Option Nat} {content : Bytes}
    (h : (system room).replace t path content = (t', .ok ())) :
    ∃ t₁ t₂, t.createParents path = (t₁, .ok ()) ∧ t₁.putFile path.temporary content = .ok t₂ ∧
      t₂.moveFile path.temporary path = .ok t' := by
  cases FileSystem.replacement_of_eq h with
  | done create write move => exact ⟨_, _, create, write_eq_ok write, attempt_eq_ok move⟩

/-- **A replacement that succeeds** leaves everything alone but the file and the temporary file. The
path leads to the content. -/
theorem replace_eq_ok {room : Option Nat} {content : Bytes}
    (h : (system room).replace t path content = (t', .ok ())) :
    Changed (fun l => t'.EndsAt path.temporary l ∨ t'.EndsAt path l) t t' ∧
      t'.read path = .ok content := by
  have hparents := fun on => createParents_changed on t path
  obtain ⟨t₁, t₂, hcreate, hwrite, hmove⟩ := replace_steps h
  rw [hcreate] at hparents
  have hwritten := putFile_changed hwrite
  have hmoved := moveFile_changed hmove
  refine ⟨(hparents _).trans
    ((hwritten.mono fun l hl => .inl (hmoved.endsAt hl)).trans hmoved), ?_⟩
  obtain ⟨l, hending, -, -, -, hfind⟩ := putFile_eq_ok hwrite
  obtain ⟨l', m, moved, hsource, hdestination, hl', hlong, -, -, hfind'⟩ := moveFile_eq_ok hmove
  -- what is moved is what was written
  have hsame := hwritten.ending hending
  rw [hsource, Except.ok.injEq, Ending.name.injEq] at hsame
  obtain ⟨rfl, -⟩ := hsame
  rw [hfind, if_pos rfl, Option.some.injEq, Node.file.injEq] at hl'
  subst hl'
  have hm : t'.find? m = some (.file content) := by rw [hfind', if_pos rfl]
  have hlocate : t'.locate path = .ok m :=
    locate_of_ending (hmoved.ending hdestination) hlong (by simp [hm])
  exact read_eq_ok_iff.2 ⟨m, hlocate, hm⟩

end Mixins.FileTree
