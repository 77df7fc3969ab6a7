import Mixins.FileTree.Change
import Mixins.Proofs.Attempt

/-!
# What a change to a file tree leaves alone

A change creates directories, and at a few locations it may put, replace or remove a file. All
directories stay, so paths go on leading where they led, and the files at other locations stay.

* `Changed` — what two trees may differ in.
* `Changed.ending`, `Changed.locate` — where a path leads after a change.
* `Changed.read` — a file that is not at one of the locations is read as before.
-/

namespace Mixins.FileTree

open Utf8 (Bytes)

variable {t t' t'' : FileTree} {on on' : Location → Prop} {path : Path} {l m : Location}

/-- Whether the trees differ at most in new directories and in what is at the locations of which
`on` holds, where there was no directory. -/
structure Changed (on : Location → Prop) (t t' : FileTree) : Prop where
  start : t'.start = t.start
  found : ∀ l, t'.find? l = t.find? l ∨ (t.find? l = none ∧ t'.find? l = some .directory) ∨
    (on l ∧ t.find? l ≠ some .directory)

namespace Changed

theorem refl (on : Location → Prop) (t : FileTree) : Changed on t t :=
  ⟨rfl, fun _ => .inl rfl⟩

theorem directory (h : Changed on t t') (hl : t.find? l = some .directory) :
    t'.find? l = some .directory := by
  rcases h.found l with hsame | ⟨hnone, -⟩ | ⟨-, hnot⟩
  · rw [hsame, hl]
  · rw [hl] at hnone
    cases hnone
  · exact absurd hl hnot

theorem other (h : Changed on t t') (hon : ¬ on l) {content : Bytes}
    (hl : t.find? l = some (.file content)) : t'.find? l = some (.file content) := by
  rcases h.found l with hsame | ⟨hnone, -⟩ | ⟨hl', -⟩
  · rw [hsame, hl]
  · rw [hl] at hnone
    cases hnone
  · exact absurd hl' hon

theorem mono (h : Changed on t t') (hsub : ∀ l, on l → on' l) : Changed on' t t' := by
  refine ⟨h.start, fun l => ?_⟩
  rcases h.found l with hsame | hnew | ⟨hl, hnot⟩
  · exact .inl hsame
  · exact .inr (.inl hnew)
  · exact .inr (.inr ⟨hsub l hl, hnot⟩)

theorem trans (h : Changed on t t') (h' : Changed on t' t'') : Changed on t t'' := by
  refine ⟨h'.start.trans h.start, fun l => ?_⟩
  rcases h.found l with hsame | ⟨hnone, hdir⟩ | hon
  · have := h'.found l
    rw [hsame] at this
    exact this
  · exact .inr (.inl ⟨hnone, h'.directory hdir⟩)
  · exact .inr (.inr hon)

end Changed

/-! ## Where paths lead -/

theorem foldlM_step_cons {name : String} {names : List String} :
    (name :: names).foldlM t.step l = .ok m ↔
      ∃ l', t.step l name = .ok l' ∧ names.foldlM t.step l' = .ok m := by
  rw [List.foldlM_cons, bind_eq_ok]

/-- A step is taken in a directory: it stays, goes up, or goes to a node of the directory. -/
theorem step_eq_ok_iff {name : String} : t.step l name = .ok m ↔ t.find? l = some .directory ∧
    if name = "." then m = l
    else if name = ".." then m = l.dropLast
    else name.utf8ByteSize ≤ maxNameSize ∧ m = l ++ [name] ∧ t.find? m ≠ none := by
  unfold step
  by_cases hl : t.find? l = some .directory
  · by_cases hdot : name = "."
    · simp [hl, hdot, eq_comm]
    · by_cases hdots : name = ".."
      · simp [hl, hdots, eq_comm]
      · by_cases hlong : name.utf8ByteSize ≤ maxNameSize
        · by_cases hnone : t.find? (l ++ [name]) = none
          · simp only [hl, hdot, hdots, hnone, Nat.not_lt.2 hlong, ne_eq, not_true_eq_false,
              if_false, if_true, reduceCtorEq, true_and, false_iff, not_and]
            rintro - rfl
            simp [hnone]
          · simp only [hl, hdot, hdots, hnone, Nat.not_lt.2 hlong, hlong, ne_eq, not_true_eq_false,
              if_false, Except.ok.injEq, true_and]
            constructor
            · rintro rfl
              exact ⟨rfl, hnone⟩
            · exact fun h => h.1.symm
        · simp [hl, hdot, hdots, hlong, Nat.not_le.1 hlong]
  · simp [hl]

theorem Changed.step (h : Changed on t t') {name : String} (hm : t'.find? m ≠ none)
    (hstep : t.step l name = .ok m) : t'.step l name = .ok m := by
  obtain ⟨hl, hname⟩ := step_eq_ok_iff.1 hstep
  refine step_eq_ok_iff.2 ⟨h.directory hl, ?_⟩
  split
  · simpa [*] using hname
  · split
    · simpa [*] using hname
    · simp only [*, if_false] at hname
      exact ⟨hname.1, hname.2.1, hm⟩

/-- The names lead where they led, as long as there is something. -/
theorem Changed.foldlM_step (h : Changed on t t') (hm : t'.find? m ≠ none) {names : List String}
    (hnames : names.foldlM t.step l = .ok m) : names.foldlM t'.step l = .ok m := by
  induction names generalizing l with
  | nil => exact hnames
  | cons name names ih =>
    obtain ⟨l', hstep, hrest⟩ := foldlM_step_cons.1 hnames
    refine foldlM_step_cons.2 ⟨l', h.step ?_ hstep, ih hrest⟩
    cases names with
    | nil =>
      cases hrest
      exact hm
    | cons next names =>
      obtain ⟨_, hnext, _⟩ := foldlM_step_cons.1 hrest
      rw [h.directory (step_eq_ok_iff.1 hnext).1]
      simp

theorem locate_eq_ok_iff : t.locate path = .ok l ↔ checkText path = .ok () ∧
    (names path).foldlM t.step (t.base path) = .ok l ∧
    (endsInSlash path = true → t.find? l = some .directory) := by
  simp only [FileTree.locate, bind_eq_ok, Bool.and_eq_true, decide_eq_true_eq]
  constructor
  · rintro ⟨⟨⟩, htext, l', hnames, hl⟩
    split at hl
    · cases hl
    · rename_i hslash
      cases hl
      exact ⟨htext, hnames, fun hends => Decidable.not_not.1 fun hnot => hslash ⟨hends, hnot⟩⟩
  · rintro ⟨htext, hnames, hslash⟩
    refine ⟨(), htext, l, hnames, ?_⟩
    rw [if_neg fun h => h.2 (hslash h.1)]

theorem Changed.locate (h : Changed on t t') (hl : t'.find? l ≠ none)
    (hlocate : t.locate path = .ok l) : t'.locate path = .ok l := by
  obtain ⟨htext, hnames, hslash⟩ := locate_eq_ok_iff.1 hlocate
  have hbase : t'.base path = t.base path := by rw [base, base, h.start]
  refine locate_eq_ok_iff.2 ⟨htext, ?_, fun hends => h.directory (hslash hends)⟩
  rw [hbase]
  exact h.foldlM_step hl hnames

theorem read_eq_ok_iff {content : Bytes} : t.read path = .ok content ↔
    ∃ l, t.locate path = .ok l ∧ t.find? l = some (.file content) := by
  simp only [FileTree.read, bind_eq_ok]
  refine exists_congr fun l => and_congr_right fun _ => ?_
  cases t.find? l with
  | none => simp
  | some node => cases node <;> simp

/-- A file that is not at one of the locations is there just if it was there before. -/
theorem Changed.file_iff (h : Changed on t t') (hl : ¬ on l) (content : Bytes) :
    t'.find? l = some (.file content) ↔ t.find? l = some (.file content) := by
  refine ⟨fun hfile => ?_, h.other hl⟩
  rcases h.found l with hsame | ⟨-, hdirectory⟩ | ⟨hon, -⟩
  · rw [← hsame, hfile]
  · rw [hfile] at hdirectory
    cases hdirectory
  · exact absurd hon hl

/-- **A file that is not at one of the locations** is read as before. -/
theorem Changed.read (h : Changed on t t') {content : Bytes} (hon : ¬ on l)
    (hlocate : t.locate path = .ok l) (hl : t.find? l = some (.file content)) :
    t'.read path = .ok content := by
  have hl' := h.other hon hl
  exact read_eq_ok_iff.2 ⟨l, h.locate (by simp [hl']) hlocate, hl'⟩

theorem ending_eq_name_iff {slash : Bool} : t.ending path = .ok (.name l slash) ↔
    checkText path = .ok () ∧ ∃ init last dir, names path = init ++ [last] ∧
      init.foldlM t.step (t.base path) = .ok dir ∧ t.find? dir = some .directory ∧
      last ≠ "." ∧ last ≠ ".." ∧ l = dir ++ [last] ∧ slash = endsInSlash path := by
  simp only [FileTree.ending, bind_eq_ok]
  rcases List.eq_nil_or_concat (names path) with hnil | ⟨init, last, hnames⟩
  · simp [hnil]
  · rw [List.concat_eq_append] at hnames
    simp only [hnames, List.getLast?_append, List.getLast?_singleton, Option.some_or,
      List.dropLast_concat, bind_eq_ok]
    constructor
    · rintro ⟨⟨⟩, htext, dir, hdir, hend⟩
      split at hend
      · cases hend
      · rename_i hfound
        split at hend
        · cases hend
        · rename_i hfixed
          simp only [Bool.or_eq_true, decide_eq_true_eq, not_or] at hfixed
          cases hend
          exact ⟨htext, init, last, dir, rfl, hdir, Decidable.not_not.1 hfound, hfixed.1,
            hfixed.2, rfl, rfl⟩
    · rintro ⟨htext, init', last', dir, hsplit, hdir, hfound, hdot, hdots, rfl, rfl⟩
      obtain ⟨rfl, hlast⟩ := List.append_inj' hsplit rfl
      cases hlast
      exact ⟨(), htext, dir, hdir, by simp [hfound, hdot, hdots]⟩

theorem Changed.ending (h : Changed on t t') {slash : Bool}
    (hending : t.ending path = .ok (.name l slash)) : t'.ending path = .ok (.name l slash) := by
  obtain ⟨htext, init, last, dir, hnames, hdir, hfound, hdot, hdots, hl, hslash⟩ :=
    ending_eq_name_iff.1 hending
  have hfound' := h.directory hfound
  have hbase : t'.base path = t.base path := by rw [base, base, h.start]
  refine ending_eq_name_iff.2 ⟨htext, init, last, dir, hnames, ?_, hfound', hdot, hdots, hl, hslash⟩
  rw [hbase]
  exact h.foldlM_step (by simp [hfound']) hdir

/-- A path that ends in the name of a node leads to it. -/
theorem locate_of_ending (hending : t.ending path = .ok (.name l false))
    (hlong : nameTooLong l = false) (hl : t.find? l ≠ none) : t.locate path = .ok l := by
  obtain ⟨htext, init, last, dir, hnames, hdir, hfound, hdot, hdots, rfl, hslash⟩ :=
    ending_eq_name_iff.1 hending
  have hstep : t.step dir last = .ok (dir ++ [last]) := by
    refine step_eq_ok_iff.2 ⟨hfound, ?_⟩
    rw [if_neg hdot, if_neg hdots]
    simp only [nameTooLong, List.getLast?_append, List.getLast?_singleton, Option.some_or,
      Option.getD_some, decide_eq_false_iff_not, Nat.not_lt] at hlong
    exact ⟨hlong, rfl, hl⟩
  refine locate_eq_ok_iff.2 ⟨htext, ?_, fun hends => ?_⟩
  · rw [hnames, List.foldlM_append, hdir, ok_bind]
    exact foldlM_step_cons.2 ⟨_, hstep, rfl⟩
  · rw [hends] at hslash
    cases hslash

end Mixins.FileTree
