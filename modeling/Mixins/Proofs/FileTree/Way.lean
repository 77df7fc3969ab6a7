import Mathlib.Data.List.Induction
import Mixins.Proofs.FileTree.Replace
import Mixins.Proofs.Path.Parent

/-!
# The way to a file

Before a file is written, the directories on the way to it are created. How far that goes depends on
the names and on the files that stand in the way, and on nothing else in the tree.

* `clear` — the directories that are there in the end, and the obstacle that is met.
* `clear_congr` — trees with the same files on the way.
* `createAll_way` — creating the directories comes to just that.
-/

namespace Mixins.FileTree

variable {t t' : FileTree} {l m : Location} {path : Path} {init way : List String} {last : String}

/-- Whether the names go neither up nor nowhere. -/
def Ordinary (way : List String) : Prop := ∀ name ∈ way, name ≠ "." ∧ name ≠ ".."

/-- Whether there is a file at the location. -/
def holdsFile (t : FileTree) (l : Location) : Bool :=
  match t.find? l with
  | some (.file _) => true
  | _ => false

/-- The directories on a way from a location, as far as they are there or can be made; and the
obstacle that is met, if any. -/
def clear (t : FileTree) (l : Location) : List String → List Location × Option SystemError
  | [] => ([], none)
  | name :: rest =>
    if maxNameSize < name.utf8ByteSize then ([], some .nameTooLong)
    else if t.holdsFile (l ++ [name]) then
      ([], some (if rest = [] then .exists else .notDirectory))
    else ((l ++ [name]) :: (t.clear (l ++ [name]) rest).1, (t.clear (l ++ [name]) rest).2)

theorem holdsFile_eq_false :
    t.holdsFile l = false ↔ t.find? l = none ∨ t.find? l = some .directory := by
  unfold holdsFile
  cases t.find? l with
  | none => simp
  | some node => cases node <;> simp

theorem clear_of_long {name : String} (rest : List String) (h : maxNameSize < name.utf8ByteSize) :
    t.clear l (name :: rest) = ([], some .nameTooLong) := by
  rw [clear, if_pos h]

theorem clear_of_file {name : String} (rest : List String) (h : ¬ maxNameSize < name.utf8ByteSize)
    (hfile : t.holdsFile (l ++ [name]) = true) :
    t.clear l (name :: rest) = ([], some (if rest = [] then .exists else .notDirectory)) := by
  rw [clear, if_neg h, hfile, if_pos rfl]

theorem clear_of_free {name : String} (rest : List String) (h : ¬ maxNameSize < name.utf8ByteSize)
    (hfree : t.holdsFile (l ++ [name]) = false) :
    t.clear l (name :: rest) =
      ((l ++ [name]) :: (t.clear (l ++ [name]) rest).1, (t.clear (l ++ [name]) rest).2) := by
  rw [clear, if_neg h, hfree, if_neg Bool.false_ne_true]

/-! ## What the way depends on -/

/-- **The way is the same** in trees with files at the same locations on it. -/
theorem clear_congr (h : ∀ part, part ≠ [] → part <+: way →
    t.holdsFile (l ++ part) = t'.holdsFile (l ++ part)) : t.clear l way = t'.clear l way := by
  induction way generalizing l with
  | nil => rfl
  | cons name way ih =>
    have hname := h [name] (List.cons_ne_nil _ _) (List.prefix_append [name] way)
    have hrest : t.clear (l ++ [name]) way = t'.clear (l ++ [name]) way := by
      refine ih fun part hne hpart => ?_
      have hlonger := h (name :: part) (List.cons_ne_nil _ _)
        ((List.prefix_append_right_inj [name]).2 hpart)
      rwa [List.append_assoc, List.singleton_append]
    rw [clear, clear, hname, hrest]

/-- The directories lie on the way, and none of them is a file. -/
theorem mem_clear (h : m ∈ (t.clear l way).1) : ∃ part, part ≠ [] ∧ part <+: way ∧ m = l ++ part ∧
    t.holdsFile m = false := by
  induction way generalizing l with
  | nil => cases h
  | cons name way ih =>
    rw [clear] at h
    split at h
    · cases h
    · split at h
      · cases h
      · rename_i hfile
        rcases List.mem_cons.1 h with rfl | h
        · exact ⟨[name], List.cons_ne_nil _ _, List.prefix_append [name] way, rfl,
            Bool.eq_false_iff.2 hfile⟩
        · obtain ⟨part, -, hpart, rfl, hnot⟩ := ih h
          exact ⟨name :: part, List.cons_ne_nil _ _,
            (List.prefix_append_right_inj [name]).2 hpart, by simp, hnot⟩

/-- What lies at the end of the way is not on it. -/
theorem not_mem_clear (t : FileTree) (l : Location) (way : List String) (last : String) :
    l ++ way ++ [last] ∉ (t.clear l way).1 := by
  intro hmem
  obtain ⟨part, -, hpart, hsame, -⟩ := mem_clear hmem
  rw [List.append_assoc] at hsame
  have hlength := hpart.length_le
  rw [← List.append_cancel_left hsame, List.length_append, List.length_singleton] at hlength
  omega

/-- The way to the last name, and then that name. -/
theorem clear_concat (t : FileTree) (l : Location) (way : List String) (last : String) :
    t.clear l (way ++ [last]) =
      match (t.clear l way).2 with
      | none => ((t.clear l way).1 ++ (t.clear (l ++ way) [last]).1, (t.clear (l ++ way) [last]).2)
      | some cause =>
        ((t.clear l way).1, some (if cause = .exists then .notDirectory else cause)) := by
  induction way generalizing l with
  | nil => simp [clear]
  | cons name way ih =>
    rw [List.cons_append, clear, clear]
    split
    · rfl
    · split
      · by_cases hway : way = [] <;> simp [hway]
      · rw [ih]
        cases (t.clear (l ++ [name]) way).2 with
        | none => simp
        | some cause => rfl

theorem clear_concat_of_none (last : String) (h : (t.clear l way).2 = none) :
    t.clear l (way ++ [last]) =
    ((t.clear l way).1 ++ (t.clear (l ++ way) [last]).1, (t.clear (l ++ way) [last]).2) := by
  rw [clear_concat, h]

theorem clear_concat_of_some {cause : SystemError} (last : String)
    (h : (t.clear l way).2 = some cause) :
    t.clear l (way ++ [last]) =
      ((t.clear l way).1, some (if cause = .exists then .notDirectory else cause)) := by
  rw [clear_concat, h]

/-! ## Following the way -/

theorem find?_parent {name : String} (h : t.find? (l ++ [name]) ≠ none) :
    t.find? l = some .directory := by
  cases hnode : t.find? (l ++ [name]) with
  | none => exact absurd hnode h
  | some node =>
    have hmem := (t.find?_eq_some_iff (by simp)).1 hnode
    obtain ⟨-, hroot | hparent⟩ := t.rooted _ hmem
    · rw [List.dropLast_concat] at hroot
      rw [hroot]
      rfl
    · rw [List.dropLast_concat] at hparent
      by_cases hl : l = []
      · rw [hl]
        rfl
      · exact (t.find?_eq_some_iff hl).2 hparent

/-- There is nothing where there is no directory. -/
theorem find?_of_missing (h : t.find? l = none) (part : List String) :
    t.find? (l ++ part) = none := by
  induction part using List.reverseRecOn with
  | nil => rwa [List.append_nil]
  | append_singleton part last ih =>
    by_contra hfound
    rw [← List.append_assoc] at hfound
    rw [find?_parent hfound] at ih
    cases ih

theorem clear_of_missing (hl : t.find? l = none) : (t.clear l way).2 ≠ some .exists := by
  induction way generalizing l with
  | nil => simp [clear]
  | cons name way ih =>
    have hmissing := find?_of_missing hl [name]
    by_cases hlong : maxNameSize < name.utf8ByteSize
    · simp [clear_of_long way hlong]
    · rw [clear_of_free way hlong (holdsFile_eq_false.2 (.inl hmissing))]
      exact ih hmissing

/-- What following a way comes to. -/
inductive Following (t : FileTree) (l : Location) (way : List String) : Prop
  | directory (hfold : way.foldlM t.step l = .ok (l ++ way))
      (hend : t.find? (l ++ way) = some .directory) (hclear : (t.clear l way).2 = none)
      (hdirs : ∀ x ∈ (t.clear l way).1, t.find? x = some .directory)
  | file (hfold : way.foldlM t.step l = .ok (l ++ way))
      (hend : t.find? (l ++ way) ≠ some .directory) (hclear : (t.clear l way).2 = some .exists)
      (hdirs : ∀ x ∈ (t.clear l way).1, t.find? x = some .directory)
  | missing (hfold : way.foldlM t.step l = .error .notFound)
      (hclear : (t.clear l way).2 ≠ some .exists)
  | obstacle (cause : SystemError) (hfold : way.foldlM t.step l = .error cause)
      (hfound : cause ≠ .notFound) (hexists : cause ≠ .exists)
      (hclear : (t.clear l way).2 = some cause)
      (hdirs : ∀ x ∈ (t.clear l way).1, t.find? x = some .directory)

/-- A way that starts with a step to a directory. -/
theorem Following.cons {name : String} (hname : t.find? (l ++ [name]) = some .directory)
    (hlong : ¬ maxNameSize < name.utf8ByteSize) (hstep : t.step l name = .ok (l ++ [name]))
    (h : Following t (l ++ [name]) way) : Following t l (name :: way) := by
  have hclear := clear_of_free way hlong (holdsFile_eq_false.2 (.inr hname))
  have hfold : (name :: way).foldlM t.step l = way.foldlM t.step (l ++ [name]) := by
    rw [List.foldlM_cons, hstep, ok_bind]
  have happend : l ++ name :: way = l ++ [name] ++ way := by simp
  have hcons : ∀ {dirs : List Location}, (∀ x ∈ dirs, t.find? x = some .directory) →
      ∀ x ∈ (l ++ [name]) :: dirs, t.find? x = some .directory :=
    fun h => List.forall_mem_cons.2 ⟨hname, h⟩
  cases h with
  | directory hrest hend hnone hdirs =>
    exact .directory (by rw [hfold, happend, hrest]) (happend ▸ hend) (by rw [hclear, hnone])
      (by rw [hclear]; exact hcons hdirs)
  | file hrest hend hsome hdirs =>
    exact .file (by rw [hfold, happend, hrest]) (happend ▸ hend) (by rw [hclear, hsome])
      (by rw [hclear]; exact hcons hdirs)
  | missing hrest hnot => exact .missing (hfold.trans hrest) (by rwa [hclear])
  | obstacle cause hrest hfound hexists hsome hdirs =>
    exact .obstacle cause (hfold.trans hrest) hfound hexists (by rw [hclear, hsome])
      (by rw [hclear]; exact hcons hdirs)

/-- **A way can be followed** to its end, or until a directory on it is missing, or to an obstacle
before the end. -/
theorem following (hl : t.find? l = some .directory) (hway : Ordinary way) :
    Following t l way := by
  induction way generalizing l with
  | nil =>
    exact .directory (by simp [pure, Except.pure]) (by simpa using hl) rfl (fun _ h => nomatch h)
  | cons name way ih =>
    obtain ⟨⟨hdot, hdots⟩, hrest⟩ := List.forall_mem_cons.1 hway
    have herror : ∀ cause, t.step l name = .error cause →
        (name :: way).foldlM t.step l = .error cause := by
      intro cause hcause
      rw [List.foldlM_cons, hcause]
      rfl
    by_cases hlong : maxNameSize < name.utf8ByteSize
    · have hclear := clear_of_long (t := t) (l := l) way hlong
      have hstep : t.step l name = .error .nameTooLong := by simp [step, hl, hdot, hdots, hlong]
      exact .obstacle .nameTooLong (herror _ hstep) (by simp) (by simp) (by rw [hclear])
        (by simp [hclear])
    · cases hnode : t.find? (l ++ [name]) with
      | none =>
        have hstep : t.step l name = .error .notFound := by
          simp [step, hl, hdot, hdots, hlong, hnode]
        refine .missing (herror _ hstep) ?_
        rw [clear_of_free way hlong (holdsFile_eq_false.2 (.inl hnode))]
        exact clear_of_missing hnode
      | some node =>
        have hstep : t.step l name = .ok (l ++ [name]) := by
          simp [step, hl, hdot, hdots, hlong, hnode]
        cases node with
        | directory => exact .cons hnode hlong hstep (ih hnode hrest)
        | file content =>
          have hclear := clear_of_file (t := t) (l := l) way hlong (by simp [holdsFile, hnode])
          cases way with
          | nil =>
            refine .file ?_ (by simp [hnode]) (by rw [hclear, if_pos rfl]) (by simp [hclear])
            rw [List.foldlM_cons, hstep]
            rfl
          | cons next way =>
            have hnext : t.step (l ++ [name]) next = .error .notDirectory := by simp [step, hnode]
            refine .obstacle .notDirectory ?_ (by simp) (by simp) (by simp [hclear])
              (by simp [hclear])
            rw [List.foldlM_cons, hstep, ok_bind, List.foldlM_cons, hnext]
            rfl

/-- Where all directories are there, the way can be followed to its end. -/
theorem foldlM_step_cleared (hl : t'.find? l = some .directory) (hway : Ordinary way)
    (hclear : (t.clear l way).2 = none)
    (hdirs : ∀ x ∈ (t.clear l way).1, t'.find? x = some .directory) :
    way.foldlM t'.step l = .ok (l ++ way) ∧ t'.find? (l ++ way) = some .directory := by
  induction way generalizing l with
  | nil => exact ⟨by simp [pure, Except.pure], by simpa using hl⟩
  | cons name way ih =>
    obtain ⟨⟨hdot, hdots⟩, hrest⟩ := List.forall_mem_cons.1 hway
    by_cases hlong : maxNameSize < name.utf8ByteSize
    · rw [clear_of_long way hlong] at hclear
      cases hclear
    · cases hfile : t.holdsFile (l ++ [name]) with
      | true =>
        rw [clear_of_file way hlong hfile] at hclear
        cases hclear
      | false =>
        rw [clear_of_free way hlong hfile] at hclear hdirs
        obtain ⟨hname, hdirs⟩ := List.forall_mem_cons.1 hdirs
        have hstep : t'.step l name = .ok (l ++ [name]) := by
          simp [step, hl, hdot, hdots, hlong, hname]
        have happend : l ++ name :: way = l ++ [name] ++ way := by simp
        rw [List.foldlM_cons, hstep, ok_bind, happend]
        exact ih hname hrest hclear hdirs

/-! ## Paths through a directory -/

/-- Whether the path leads to the directory at `l`, and from there on through the names of a way. -/
structure Onward (t : FileTree) (path : Path) (l : Location) (way : List String) : Prop where
  names : ∃ init, names path = init ++ way ∧ init.foldlM t.step (t.base path) = .ok l
  directory : t.find? l = some .directory
  ordinary : Ordinary way

theorem Onward.changed {on : Location → Prop} (h : Onward t path l way)
    (hchanged : Changed on t t') : Onward t' path l way := by
  obtain ⟨init, hnames, hinit⟩ := h.names
  have hl := hchanged.directory h.directory
  refine ⟨⟨init, hnames, ?_⟩, hl, h.ordinary⟩
  rw [base, hchanged.start]
  exact hchanged.foldlM_step (by simp [hl]) hinit

/-- What has been followed of the way leads to a directory. -/
theorem Onward.advance {rest : List String} (h : Onward t path l (way ++ rest))
    (hway : way.foldlM t.step l = .ok m) (hm : t.find? m = some .directory) :
    Onward t path m rest := by
  obtain ⟨init, hnames, hinit⟩ := h.names
  refine ⟨⟨init ++ way, by rw [hnames, List.append_assoc], ?_⟩, hm,
    fun name hname => h.ordinary name (List.mem_append_right _ hname)⟩
  rw [List.foldlM_append, hinit, ok_bind, hway]

/-- Whether a path that leads so has a text that can be followed. -/
structure Through (t : FileTree) (path : Path) (l : Location) (way : List String) : Prop
    extends Onward t path l way where
  text : checkText path = .ok ()

namespace Through

theorem follow (h : Through t path l way) :
    (FileTree.names path).foldlM t.step (t.base path) = way.foldlM t.step l := by
  obtain ⟨init, hnames, hinit⟩ := h.names
  rw [hnames, List.foldlM_append, hinit, ok_bind]

theorem advance {rest : List String} (h : Through t path l (way ++ rest))
    (hway : way.foldlM t.step l = .ok m) (hm : t.find? m = some .directory) :
    Through t path m rest :=
  ⟨h.toOnward.advance hway hm, h.text⟩

theorem changed {on : Location → Prop} (h : Through t path l way) (hchanged : Changed on t t') :
    Through t' path l way :=
  ⟨h.toOnward.changed hchanged, h.text⟩

theorem ne_empty (h : Through t path l (way ++ [last])) : path ≠ Path.empty := by
  rintro rfl
  obtain ⟨init, hnames, -⟩ := h.names
  have hnone : FileTree.names Path.empty = [] := by decide
  rw [hnone] at hnames
  simp at hnames

end Through

theorem foldlM_step_concat : (init ++ [last]).foldlM t.step l = .ok m ↔
    ∃ dir, init.foldlM t.step l = .ok dir ∧ t.step dir last = .ok m := by
  rw [List.foldlM_append, bind_eq_ok]
  refine exists_congr fun dir => and_congr_right fun _ => ?_
  rw [foldlM_step_cons]
  constructor
  · rintro ⟨_, hstep, ⟨⟩⟩
    exact hstep
  · exact fun hstep => ⟨m, hstep, rfl⟩

/-- Where the way before the last name leads nowhere, or not to a directory. -/
theorem Through.ending_eq_error (h : Through t path l (way ++ [last])) {cause : SystemError}
    (hway : way.foldlM t.step l = .error cause ∨ cause = .notDirectory ∧
      ∃ m, way.foldlM t.step l = .ok m ∧ t.find? m ≠ some .directory) :
    t.ending path = .error cause := by
  obtain ⟨init, hnames, hinit⟩ := h.names
  rw [← List.append_assoc] at hnames
  unfold ending
  rw [h.text, ok_bind, hnames]
  simp only [List.getLast?_append, List.getLast?_singleton, Option.some_or, List.dropLast_concat]
  rw [List.foldlM_append, hinit, ok_bind]
  rcases hway with hway | ⟨rfl, m, hway, hm⟩
  · rw [hway]
    rfl
  · rw [hway, ok_bind, if_pos hm]

theorem Through.ending_eq_name (h : Through t path l [last]) :
    t.ending path = .ok (.name (l ++ [last]) (endsInSlash path)) := by
  obtain ⟨init, hnames, hinit⟩ := h.names
  obtain ⟨hdot, hdots⟩ := h.ordinary last List.mem_cons_self
  exact ending_eq_name_iff.2
    ⟨h.text, init, last, l, hnames, hinit, h.directory, hdot, hdots, rfl, rfl⟩

theorem nameTooLong_concat (m : Location) (last : String) :
    nameTooLong (m ++ [last]) = decide (maxNameSize < last.utf8ByteSize) := by
  simp [nameTooLong]

/-! ## Putting a node at the end -/

theorem isNodeName_of_mem {name : String} (htext : checkText path = .ok ())
    (hname : name ∈ names path) (hordinary : name ≠ "." ∧ name ≠ "..")
    (hshort : ¬ maxNameSize < name.utf8ByteSize) : isNodeName name = true := by
  obtain ⟨piece, hpiece, rfl⟩ := List.mem_map.1 hname
  obtain ⟨hmem, hne⟩ := List.mem_filter.1 hpiece
  have hslash := Path.not_mem_splitOn hmem
  have hnul : '\x00' ∉ piece := by
    intro hnul
    have hin := Path.mem_of_mem_splitOn hmem hnul
    unfold checkText at htext
    rw [if_pos (by simpa using hin)] at htext
    cases htext
  have hchars : ∀ c ∈ piece, c ≠ '/' ∧ c ≠ '\x00' := by
    intro c hc
    exact ⟨fun h => hslash (h ▸ hc), fun h => hnul (h ▸ hc)⟩
  have hnonempty : String.ofList piece ≠ "" := by
    intro h
    rw [← String.toList_inj, String.toList_ofList] at h
    simp [h] at hne
  simpa [isNodeName, hordinary, hnonempty, Nat.not_lt.1 hshort] using hchars

theorem all_isNodeName (hm : t.find? m ≠ none) : m.all isNodeName = true := by
  by_cases hroot : m = []
  · rw [hroot]
    rfl
  · cases hnode : t.find? m with
    | none => exact absurd hnode hm
    | some node => exact t.named _ ((t.find?_eq_some_iff hroot).1 hnode)

/-- A node can be put where a path ends in a name. -/
theorem Through.put? (h : Through t path l [last]) (hshort : ¬ maxNameSize < last.utf8ByteSize)
    (hfree : t.find? (l ++ [last]) ≠ some .directory) (node : Node) :
    ∃ t', t.put? (l ++ [last]) node = some t' ∧ t'.start = t.start ∧
      ∀ x, t'.find? x = if x = l ++ [last] then some node else t.find? x := by
  obtain ⟨init, hnames, -⟩ := h.names
  have hname := isNodeName_of_mem h.text (by simp [hnames]) (h.ordinary last List.mem_cons_self)
    hshort
  have hparent : t.find? l ≠ none := by simp [h.directory]
  have hadmits : t.Admits (l ++ [last]) := by
    refine ⟨by simp, by rw [List.dropLast_concat, h.directory], hfree, ?_⟩
    rw [List.all_append, all_isNodeName hparent]
    simp [hname]
  have hput : t.put? (l ++ [last]) node = some (t.put (l ++ [last]) node hadmits) :=
    dif_pos hadmits
  exact ⟨_, hput, put?_eq_some hput⟩

/-! ## Whether there is a directory -/

theorem Through.isDirectory_eq_true (h : Through t path l []) : t.isDirectory path = true := by
  have hlocate : t.locate path = .ok l :=
    locate_eq_ok_iff.2 ⟨h.text, h.follow, fun _ => h.directory⟩
  simp [isDirectory, hlocate, h.directory]

theorem isDirectory_eq_false
    (h : ∀ l, (names path).foldlM t.step (t.base path) = .ok l → t.find? l ≠ some .directory) :
    t.isDirectory path = false := by
  unfold isDirectory
  cases hlocate : t.locate path with
  | error cause => rfl
  | ok l => simpa using h l (locate_eq_ok_iff.1 hlocate).2.1

/-- Where the way before the last name does not lead to a directory. -/
theorem Through.isDirectory_eq_false (h : Through t path l (way ++ [last]))
    (hway : ∀ m, way.foldlM t.step l = .ok m → t.find? m ≠ some .directory) :
    t.isDirectory path = false := by
  refine FileTree.isDirectory_eq_false fun m hm => ?_
  rw [h.follow, foldlM_step_concat] at hm
  obtain ⟨dir, hdir, hstep⟩ := hm
  exact absurd (step_eq_ok_iff.1 hstep).1 (hway dir hdir)

/-- Where it does, but there is no directory of the last name. -/
theorem Through.isDirectory_eq_false_of_last (h : Through t path l [last])
    (hlast : maxNameSize < last.utf8ByteSize ∨ t.find? (l ++ [last]) ≠ some .directory) :
    t.isDirectory path = false := by
  obtain ⟨hdot, hdots⟩ := h.ordinary last List.mem_cons_self
  refine FileTree.isDirectory_eq_false fun m hm => ?_
  rw [h.follow] at hm
  obtain ⟨m', hstep, hend⟩ := foldlM_step_cons.1 hm
  obtain rfl : m' = m := Except.ok.inj hend
  have hcase := (step_eq_ok_iff.1 hstep).2
  rw [if_neg hdot, if_neg hdots] at hcase
  obtain ⟨hshort, rfl, -⟩ := hcase
  exact hlast.resolve_left (Nat.not_lt.2 hshort)

/-! ## Creating the directories -/

/-- What creating the directories on a way comes to. -/
structure Cleared (t : FileTree) (l : Location) (way : List String)
    (done : FileTree × Except SystemError Unit) : Prop where
  start : done.1.start = t.start
  found : ∀ x, done.1.find? x =
    if x ∈ (t.clear l way).1 then some .directory else t.find? x
  outcome : done.2 = match (t.clear l way).2 with
    | none => .ok ()
    | some cause => .error cause

/-- The directories on a way are there already. -/
theorem cleared_self {outcome : Except SystemError Unit}
    (hdirs : ∀ x ∈ (t.clear l way).1, t.find? x = some .directory)
    (houtcome : outcome = match (t.clear l way).2 with
      | none => .ok ()
      | some cause => .error cause) : Cleared t l way (t, outcome) := by
  refine ⟨rfl, fun x => ?_, houtcome⟩
  split
  · rename_i hx
    exact hdirs x hx
  · rfl

/-- The directories before the last, and then the last. -/
theorem Cleared.concat {done : FileTree × Except SystemError Unit}
    (hlast : Cleared t' (l ++ way) [last] done) (h : Cleared t l way (t', .ok ()))
    (hclear : (t.clear l way).2 = none) : Cleared t l (way ++ [last]) done := by
  have hend : l ++ way ++ [last] ∉ (t.clear l way).1 := not_mem_clear t l way last
  have hfile : t'.clear (l ++ way) [last] = t.clear (l ++ way) [last] := by
    have hsame := h.found (l ++ way ++ [last])
    rw [if_neg hend] at hsame
    simp only [clear, holdsFile, hsame]
  have hconcat := clear_concat_of_none last hclear
  obtain ⟨hstart, hfound, houtcome⟩ := hlast
  rw [hfile] at hfound houtcome
  refine ⟨hstart.trans h.start, fun x => ?_, by rw [houtcome, hconcat]⟩
  rw [hfound, h.found, hconcat]
  simp only [List.mem_append]
  by_cases hx : x ∈ (t.clear l way).1 <;> simp [hx]

/-- A path to a directory needs nothing to be created. -/
theorem Through.createDirectory_of_directory (h : Through t path l []) :
    t.createDirectory path = .error .exists := by
  have hfold := h.follow
  unfold createDirectory
  rcases List.eq_nil_or_concat (FileTree.names path) with hnil | ⟨init, last, hnames⟩
  · have hending : t.ending path = .ok .fixed := by
      unfold ending
      rw [h.text, ok_bind, hnil]
      rfl
    rw [hending, ok_bind]
  · rw [List.concat_eq_append] at hnames
    rw [hnames, List.foldlM_nil, pure_eq_ok.2 rfl, foldlM_step_concat] at hfold
    obtain ⟨m, hinit, hstep⟩ := hfold
    obtain ⟨hm, hcase⟩ := step_eq_ok_iff.1 hstep
    by_cases hfixed : last = "." ∨ last = ".."
    · have hending : t.ending path = .ok .fixed := by
        unfold ending
        rw [h.text, ok_bind, hnames]
        simp only [List.getLast?_append, List.getLast?_singleton, Option.some_or,
          List.dropLast_concat]
        rw [hinit, ok_bind, if_neg (not_not.2 hm)]
        simp [hfixed]
      rw [hending, ok_bind]
    · rw [not_or] at hfixed
      rw [if_neg hfixed.1, if_neg hfixed.2] at hcase
      obtain ⟨hshort, rfl, hfound⟩ := hcase
      have hending := ending_eq_name_iff.2 ⟨h.text, init, last, m, hnames, hinit, hm, hfixed.1,
        hfixed.2, rfl, rfl⟩
      rw [hending, ok_bind]
      dsimp only
      rw [nameTooLong_concat, decide_eq_false (Nat.not_lt.2 hshort), if_neg Bool.false_ne_true,
        if_pos hfound]

theorem Through.createDirectory_eq (h : Through t path l [last]) : t.createDirectory path =
    if maxNameSize < last.utf8ByteSize then .error .nameTooLong
    else if t.find? (l ++ [last]) ≠ none then .error .exists
    else orElse .notDirectory (t.put? (l ++ [last]) .directory) := by
  unfold createDirectory
  rw [h.ending_eq_name, ok_bind]
  simp only [nameTooLong_concat, decide_eq_true_eq]

/-- Whether there is a directory of the last name. -/
theorem Through.isDirectory_of_directory (h : Through t path l [last])
    (hshort : ¬ maxNameSize < last.utf8ByteSize)
    (hnode : t.find? (l ++ [last]) = some .directory) : t.isDirectory path = true := by
  obtain ⟨hdot, hdots⟩ := h.ordinary last List.mem_cons_self
  have hthere : [last].foldlM t.step l = .ok (l ++ [last]) := by
    refine foldlM_step_cons.2 ⟨l ++ [last], step_eq_ok_iff.2 ⟨h.directory, ?_⟩, rfl⟩
    rw [if_neg hdot, if_neg hdots]
    exact ⟨Nat.not_lt.1 hshort, rfl, by simp [hnode]⟩
  have hlast : Through t path l ([last] ++ []) := h
  exact (hlast.advance hthere hnode).isDirectory_eq_true

/-- The last directory of a way, where the directory that it lies in is there. -/
theorem Through.settle (h : Through t path l [last]) :
    t.createDirectory path ≠ .error .notFound ∧
      Cleared t l [last] (createAll.settle t path (t.createDirectory path)) := by
  rw [h.createDirectory_eq]
  by_cases hlong : maxNameSize < last.utf8ByteSize
  · rw [if_pos hlong]
    refine ⟨by simp, ?_⟩
    unfold createAll.settle
    rw [h.isDirectory_eq_false_of_last (.inl hlong)]
    exact ⟨rfl, by simp [clear, hlong], by simp [clear, hlong]⟩
  · rw [if_neg hlong]
    cases hnode : t.find? (l ++ [last]) with
    | none =>
      have hfile := holdsFile_eq_false.2 (.inl hnode)
      obtain ⟨t', hput, hstart, hfound⟩ := h.put? hlong (by simp [hnode]) .directory
      rw [if_neg (not_not.2 rfl), hput]
      refine ⟨by simp [orElse], hstart, fun x => ?_, ?_⟩
      · simp [clear, hlong, hfile, createAll.settle, orElse, hfound]
      · simp [clear, hlong, hfile, createAll.settle, orElse]
    | some node =>
      rw [if_pos (by simp)]
      refine ⟨by simp, ?_⟩
      unfold createAll.settle
      cases node with
      | directory =>
        have hfile := holdsFile_eq_false.2 (.inr hnode)
        rw [h.isDirectory_of_directory hlong hnode]
        exact cleared_self (by simp [clear, hlong, hfile, hnode]) (by simp [clear, hlong, hfile])
      | file content =>
        have hfile : t.holdsFile (l ++ [last]) = true := by simp [holdsFile, hnode]
        rw [h.isDirectory_eq_false_of_last (.inr (by simp [hnode]))]
        exact cleared_self (by simp [clear, hlong, hfile]) (by simp [clear, hlong, hfile])

theorem createDirectory_eq_error {cause : SystemError} (h : t.ending path = .error cause) :
    t.createDirectory path = .error cause := by
  unfold createDirectory
  rw [h]
  rfl

/-- The beginning of a path's text is a path as well. -/
theorem checkText_of_isPrefix {parent : Path} (h : parent.text.toList <+: path.text.toList)
    (hparent : parent.text ≠ "") (htext : checkText path = .ok ()) :
    checkText parent = .ok () := by
  obtain ⟨rest, hrest⟩ := h
  have hwhole : path.text = parent.text ++ String.ofList rest := by
    rw [← String.toList_inj, String.toList_append, String.toList_ofList, hrest]
  have hsize : path.text.utf8ByteSize =
      parent.text.utf8ByteSize + (String.ofList rest).utf8ByteSize := by
    rw [hwhole, String.utf8ByteSize_append]
  unfold checkText at htext ⊢
  split at htext
  · cases htext
  · rename_i hnul
    split at htext
    · cases htext
    · split at htext
      · cases htext
      · have hnul' : parent.text.toList.contains '\x00' = false := by
          rw [Bool.not_eq_true, ← hrest] at hnul
          simp only [List.contains_eq_mem, List.mem_append, decide_eq_false_iff_not, not_or]
            at hnul ⊢
          exact hnul.1
        rw [hnul', if_neg Bool.false_ne_true, if_neg hparent, if_neg (by omega)]

/-- Dots lead nowhere else. -/
theorem foldlM_step_dots {dots : List String} (hdots : ∀ dot ∈ dots, dot = ".")
    (h : (init ++ dots).foldlM t.step l = .ok m) : init.foldlM t.step l = .ok m := by
  induction dots using List.reverseRecOn with
  | nil => rwa [List.append_nil] at h
  | append_singleton dots dot ih =>
    obtain rfl := hdots dot (by simp)
    rw [← List.append_assoc, foldlM_step_concat] at h
    obtain ⟨dir, hdir, hstep⟩ := h
    have hsame := (step_eq_ok_iff.1 hstep).2
    rw [if_pos rfl] at hsame
    exact ih (fun dot hdot => hdots dot (List.mem_append_left _ hdot)) (hsame ▸ hdir)

/-- **The parent** leads through what comes before the last name. -/
theorem Onward.parent (h : Onward t path l (way ++ [last])) :
    ∃ parent, path.parent? = some parent ∧ Onward t parent l way ∧
      parent.text.toList <+: path.text.toList := by
  obtain ⟨init, hnames, hinit⟩ := h.names
  rw [← List.append_assoc] at hnames
  have hbefore : Ordinary way := fun name hname =>
    h.ordinary name (List.mem_append_left _ hname)
  obtain ⟨parent, dots, hparent, hstart, hdots, habsolute, htext⟩ :=
    Path.parent?_of_names hnames (h.ordinary last (by simp)).1
  refine ⟨parent, hparent, ⟨?_, h.directory, hbefore⟩, htext⟩
  have hbase : t.base parent = t.base path := by rw [base, base, habsolute]
  rw [hbase]
  rcases List.eq_nil_or_concat way with rfl | ⟨before, dir, rfl⟩
  · rw [List.append_nil] at hstart
    rw [hstart] at hinit
    exact ⟨FileTree.names parent, by rw [List.append_nil], foldlM_step_dots hdots hinit⟩
  · rcases List.eq_nil_or_concat dots with rfl | ⟨dots, dot, rfl⟩
    · exact ⟨init, by rw [hstart, List.append_nil], hinit⟩
    · -- a dot at the end would be the last name of the way
      rw [List.concat_eq_append, List.concat_eq_append, ← List.append_assoc, ← List.append_assoc]
        at hstart
      have hdot := hdots dot (by simp)
      have hsame := (List.append_inj' hstart rfl).2
      rw [List.cons.injEq, hdot] at hsame
      exact absurd hsame.1 (hbefore dir (by simp)).1

theorem Through.parent (h : Through t path l (way ++ [last])) (hne : way ≠ []) :
    ∃ parent, path.parent? = some parent ∧ Through t parent l way := by
  obtain ⟨parent, hparent, honward, htext⟩ := h.toOnward.parent
  refine ⟨parent, hparent, honward, checkText_of_isPrefix htext (fun hempty => ?_) h.text⟩
  obtain ⟨init, hnames, -⟩ := honward.names
  have hnone : FileTree.names parent = [] := by
    rw [FileTree.names, hempty]
    rfl
  rw [hnames] at hnone
  exact hne (List.append_eq_nil_iff.1 hnone).2

/-- Where the directories before the last are there, only the last is asked for. -/
theorem createAll_found (h : Through t path l [last]) (above : List Path) :
    Cleared t l [last] (t.createAll (path :: above)) := by
  have hthrough : Through t path l ([] ++ [last]) := h
  obtain ⟨hfound, hcleared⟩ := h.settle
  rw [createAll, if_neg hthrough.ne_empty]
  cases hcreate : t.createDirectory path with
  | ok t₁ =>
    rw [hcreate] at hcleared
    exact hcleared
  | error cause =>
    rw [hcreate] at hfound hcleared
    cases cause with
    | notFound => exact absurd rfl hfound
    | _ => exact hcleared

/-- Where there is an obstacle before the last directory, nothing is created. -/
theorem createAll_blocked (h : Through t path l (way ++ [last])) {cause : SystemError}
    (hending : t.ending path = .error cause) (hcause : cause ≠ .notFound)
    (hway : ∀ m, way.foldlM t.step l = .ok m → t.find? m ≠ some .directory) (above : List Path) :
    t.createAll (path :: above) = (t, .error cause) := by
  rw [createAll, if_neg h.ne_empty, createDirectory_eq_error hending]
  cases cause with
  | notFound => exact absurd rfl hcause
  | _ => simp [createAll.settle, h.isDirectory_eq_false hway]

/-- Where a directory before the last is missing, those before the last are created first. -/
theorem createAll_missing (h : Through t path l (way ++ [last])) {above : List Path}
    (hmissing : way.foldlM t.step l = .error .notFound)
    (hexists : (t.clear l way).2 ≠ some .exists) (habove : Cleared t l way (t.createAll above)) :
    Cleared t l (way ++ [last]) (t.createAll (path :: above)) := by
  rw [createAll, if_neg h.ne_empty,
    createDirectory_eq_error (h.ending_eq_error (.inl hmissing))]
  have hchanged := createAll_changed (fun _ => False) t above
  dsimp only
  cases hcreate : t.createAll above with
  | mk t₁ done =>
    rw [hcreate] at habove hchanged
    have houtcome := habove.outcome
    cases hclear : (t.clear l way).2 with
    | some cause =>
      have hconcat := clear_concat_of_some last hclear
      rw [if_neg fun hcause : cause = .exists => hexists (by rw [hclear, hcause])] at hconcat
      rw [hclear] at houtcome
      dsimp only at houtcome
      subst houtcome
      exact ⟨habove.start, by rw [hconcat]; exact habove.found, by rw [hconcat]⟩
    | none =>
      rw [hclear] at houtcome
      dsimp only at houtcome
      subst houtcome
      have h₁ := h.changed hchanged
      have hbefore : Ordinary way := fun name hname =>
        h.ordinary name (List.mem_append_left _ hname)
      obtain ⟨hfold, hdirectory⟩ := foldlM_step_cleared h₁.directory hbefore hclear
        fun x hx => by rw [habove.found, if_pos hx]
      exact (h₁.advance hfold hdirectory).settle.2.concat habove hclear

/-- **Creating the directories on a way** comes to what its names and the files on it say. -/
theorem createAll_way {fuel : Nat} (h : Through t path l way) (hfuel : way.length < fuel) :
    Cleared t l way (t.createAll (withParents.go fuel path)) := by
  -- the last directory is asked for first, and those before it only if they are missing
  induction way using List.reverseRecOn generalizing path fuel with
  | nil =>
    obtain ⟨fuel, rfl⟩ := Nat.exists_eq_succ_of_ne_zero (Nat.ne_of_gt hfuel)
    rw [withParents.go, createAll]
    split
    · exact ⟨rfl, by simp [clear], rfl⟩
    · rw [h.createDirectory_of_directory]
      simp only [createAll.settle, h.isDirectory_eq_true, if_true]
      exact ⟨rfl, by simp [clear], rfl⟩
  | append_singleton way last ih =>
    obtain ⟨fuel, rfl⟩ := Nat.exists_eq_succ_of_ne_zero (Nat.ne_of_gt (Nat.zero_lt_of_lt hfuel))
    rw [List.length_append, List.length_singleton] at hfuel
    have hbefore : Ordinary way := fun name hname =>
      h.ordinary name (List.mem_append_left _ hname)
    rw [withParents.go]
    cases following h.directory hbefore with
    | directory hfold hend hclear hdirs =>
      have hself : Cleared t l way (t, .ok ()) := cleared_self hdirs (by rw [hclear])
      exact (createAll_found (h.advance hfold hend) _).concat hself hclear
    | file hfold hend hclear hdirs =>
      have hnot : ∀ m, way.foldlM t.step l = .ok m → t.find? m ≠ some .directory := by
        intro m hm
        rw [hfold, Except.ok.injEq] at hm
        exact hm ▸ hend
      have hconcat := clear_concat_of_some last hclear
      rw [if_pos rfl] at hconcat
      rw [createAll_blocked h (h.ending_eq_error (.inr ⟨rfl, _, hfold, hend⟩)) (by simp) hnot]
      exact cleared_self (by rw [hconcat]; exact hdirs) (by rw [hconcat])
    | missing hfold hclear =>
      have hne : way ≠ [] := by
        rintro rfl
        cases hfold
      obtain ⟨parent, hparent, hthrough⟩ := h.parent hne
      rw [hparent, Option.map_some, Option.getD_some]
      exact createAll_missing h hfold hclear (ih hthrough (by omega))
    | obstacle cause hfold hfound hexists hclear hdirs =>
      have hnot : ∀ m, way.foldlM t.step l = .ok m → t.find? m ≠ some .directory := by
        intro m hm
        rw [hfold] at hm
        cases hm
      have hconcat := clear_concat_of_some last hclear
      rw [if_neg hexists] at hconcat
      rw [createAll_blocked h (h.ending_eq_error (.inl hfold)) hfound hnot]
      exact cleared_self (by rw [hconcat]; exact hdirs) (by rw [hconcat])

theorem Through.createAll (h : Through t path l way) :
    Cleared t l way (t.createAll (withParents path)) := by
  obtain ⟨init, hnames, -⟩ := h.names
  have hfuel := Path.length_le_components hnames fun name hname => (h.ordinary name hname).1
  exact createAll_way h (Nat.lt_succ_of_le hfuel)

end Mixins.FileTree
