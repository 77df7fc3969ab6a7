import Mixins.Proofs.FileTree.Below
import Mixins.Proofs.FileTree.Way

/-!
# What a read depends on

A path is read by following its names, so what stands elsewhere does not matter. What stands on the
way may change where it was missing: as long as the end of the path is as before, a directory that
is new on the way leads no further than before.

* `Alike.read` — trees that hold the same nodes.
* `Changed.read_eq` — trees that differ in new directories, but not at the end of the path.
* `Onward.read_eq_ok_iff`, `Onward.read_ne_notFound` — a file at the end of the path.
* `Through.read_tooLong` — a name that is too long, which a new directory does make a difference to.
-/

namespace Mixins.FileTree

variable {t t' : FileTree} {l : Location} {path : Path} {way : List String}

/-- Whether the trees hold the same nodes, and relative paths start at the same location. -/
structure Alike (t t' : FileTree) : Prop where
  start : t.start = t'.start
  found : ∀ l, t.find? l = t'.find? l

theorem Alike.refl (t : FileTree) : Alike t t := ⟨rfl, fun _ => rfl⟩

theorem Alike.locate (h : Alike t t') (path : Path) : t.locate path = t'.locate path := by
  have hstep : t.step = t'.step := by
    funext l name
    simp only [step, h.found]
  have hbase : t.base path = t'.base path := by rw [base, base, h.start]
  simp only [FileTree.locate, hstep, hbase, h.found]

theorem Alike.read (h : Alike t t') (path : Path) : t.read path = t'.read path := by
  simp only [FileTree.read, h.locate, h.found]

/-- Whether each of the names can be looked up. -/
def Short (way : List String) : Prop := ∀ name ∈ way, name.utf8ByteSize ≤ maxNameSize

instance (way : List String) : Decidable (Short way) :=
  inferInstanceAs (Decidable (∀ name ∈ way, name.utf8ByteSize ≤ maxNameSize))

/-- A step to a name that is neither up nor nowhere nor too long. -/
theorem step_of_name {name : String} (hl : t.find? l = some .directory)
    (hordinary : name ≠ "." ∧ name ≠ "..") (hshort : name.utf8ByteSize ≤ maxNameSize) :
    t.step l name =
      if t.find? (l ++ [name]) = none then .error .notFound else .ok (l ++ [name]) := by
  simp [step, hl, hordinary.1, hordinary.2, Nat.not_lt.2 hshort]

/-- Whatever stands at the end of a way is reached by following it. -/
theorem foldlM_step_found (hway : Ordinary way) (hend : t.find? (l ++ way) ≠ none) :
    way.foldlM t.step l = .ok (l ++ way) := by
  induction way generalizing l with
  | nil =>
    rw [List.append_nil]
    rfl
  | cons name way ih =>
    obtain ⟨hname, hrest⟩ := List.forall_mem_cons.1 hway
    have happend : l ++ name :: way = l ++ [name] ++ way := by simp
    rw [happend] at hend ⊢
    have hfirst : t.find? (l ++ [name]) ≠ none := fun hnone => hend (find?_of_missing hnone way)
    have hnode : isNodeName name = true :=
      List.all_eq_true.1 (all_isNodeName hfirst) name (by simp)
    have hshort : name.utf8ByteSize ≤ maxNameSize := by
      simp only [isNodeName, Bool.and_eq_true, decide_eq_true_eq] at hnode
      exact hnode.2
    rw [List.foldlM_cons, step_of_name (find?_parent hfirst) hname hshort, if_neg hfirst, ok_bind]
    exact ih hrest hend

/-- **A file at the end** of a path is read, if the path is the text of one that names a file. -/
theorem Onward.read_eq_ok_iff {content : Utf8.Bytes} (h : Onward t path l way) :
    t.read path = .ok content ↔ checkText path = .ok () ∧ endsInSlash path = false ∧
      t.find? (l ++ way) = some (.file content) := by
  rw [FileTree.read_eq_ok_iff]
  constructor
  · rintro ⟨m, hlocate, hfile⟩
    obtain ⟨htext, hfold, hslash⟩ := locate_eq_ok_iff.1 hlocate
    rw [Through.follow ⟨h, htext⟩] at hfold
    obtain rfl := foldlM_step_ordinary h.ordinary hfold
    refine ⟨htext, Bool.eq_false_iff.2 fun hends => ?_, hfile⟩
    rw [hslash hends] at hfile
    cases hfile
  · rintro ⟨htext, hslash, hfile⟩
    have hfold := foldlM_step_found h.ordinary (by rw [hfile]; simp)
    refine ⟨l ++ way, locate_eq_ok_iff.2 ⟨htext, ?_, fun hends => ?_⟩, hfile⟩
    · rw [Through.follow ⟨h, htext⟩, hfold]
    · rw [hslash] at hends
      cases hends

/-- A file at the end of a path may be refused, but it is not missing. -/
theorem Onward.read_ne_notFound {content : Utf8.Bytes} (h : Onward t path l way) (hne : way ≠ [])
    (hfile : t.find? (l ++ way) = some (.file content)) : t.read path ≠ .error .notFound := by
  intro hread
  have htext : path.text ≠ "" := by
    intro hempty
    obtain ⟨init, hnames, -⟩ := h.names
    rw [FileTree.names, hempty] at hnames
    exact hne (List.append_eq_nil_iff.1 hnames.symm).2
  cases hcheck : checkText path with
  | error cause =>
    simp only [FileTree.read, FileTree.locate, hcheck] at hread
    obtain rfl : cause = .notFound := Except.error.inj hread
    unfold checkText at hcheck
    rw [if_neg htext] at hcheck
    split at hcheck
    · cases hcheck
    · split at hcheck <;> cases hcheck
  | ok _ =>
    have hfold := foldlM_step_found h.ordinary (by rw [hfile]; simp)
    simp only [FileTree.read, FileTree.locate, hcheck, ok_bind, Through.follow ⟨h, hcheck⟩, hfold,
      hfile] at hread
    split at hread
    · cases hread
    · simp only [ok_bind, hfile] at hread
      cases hread

/-- **A name that is too long** is refused where its directory is there, and not found where that is
missing. -/
theorem Through.read_tooLong {dir name : String} {rest : List String}
    (h : Through t path l (dir :: name :: rest)) (hshort : dir.utf8ByteSize ≤ maxNameSize)
    (hlong : maxNameSize < name.utf8ByteSize) :
    (t.find? (l ++ [dir]) = none → t.read path = .error .notFound) ∧
      (t.find? (l ++ [dir]) = some .directory → t.read path = .error .nameTooLong) := by
  have hfirst := step_of_name h.directory (h.ordinary dir (by simp)) hshort
  have hread : ∀ cause, (dir :: name :: rest).foldlM t.step l = .error cause →
      t.read path = .error cause := by
    intro cause hcause
    simp only [FileTree.read, FileTree.locate, h.text, ok_bind, h.follow, hcause]
    rfl
  refine ⟨fun hmissing => hread _ ?_, fun hdirectory => hread _ ?_⟩
  · rw [List.foldlM_cons, hfirst, if_pos hmissing]
    rfl
  · have hsecond : t.step (l ++ [dir]) name = .error .nameTooLong := by
      obtain ⟨hdot, hdots⟩ := h.ordinary name (by simp)
      simp [FileTree.step, hdirectory, hdot, hdots, hlong]
    rw [List.foldlM_cons, hfirst, if_neg (by simp [hdirectory]), ok_bind, List.foldlM_cons, hsecond]
    rfl

/-- Where there are only directories on the way and nothing at its end, the end is not found. -/
theorem foldlM_step_missing (hl : t.find? l = some .directory) (hway : Ordinary way)
    (hshort : Short way)
    (hfree : ∀ part, part ≠ [] → part <+: way → t.holdsFile (l ++ part) = false)
    (hend : t.find? (l ++ way) = none) : way.foldlM t.step l = .error .notFound := by
  induction way generalizing l with
  | nil =>
    rw [List.append_nil, hl] at hend
    cases hend
  | cons name way ih =>
    obtain ⟨hname, hway⟩ := List.forall_mem_cons.1 hway
    obtain ⟨hlength, hshort⟩ := List.forall_mem_cons.1 hshort
    have hfirst := hfree [name] (List.cons_ne_nil _ _) (List.prefix_append [name] way)
    rw [List.foldlM_cons, step_of_name hl hname hlength]
    rcases holdsFile_eq_false.1 hfirst with hnone | hdirectory
    · rw [if_pos hnone]
      rfl
    · rw [if_neg (by simp [hdirectory]), ok_bind]
      refine ih hdirectory hway hshort (fun part hne hpart => ?_) (by simpa using hend)
      have hlonger := hfree (name :: part) (List.cons_ne_nil _ _)
        ((List.prefix_append_right_inj [name]).2 hpart)
      rwa [List.append_assoc, List.singleton_append]

/-- A new directory leads nowhere: nothing stood behind it, so nothing but directories stands there
now, and the end of the way is missing as before. -/
theorem Changed.foldlM_step_new {on : Location → Prop} {name : String} (h : Changed on t t')
    (hl : t.find? l = some .directory) (hway : Ordinary (name :: way))
    (hshort : Short (name :: way))
    (hon : ∀ part, part ≠ [] → part <+: name :: way → ¬ on (l ++ part))
    (hend : t'.find? (l ++ name :: way) = t.find? (l ++ name :: way))
    (hnone : t.find? (l ++ [name]) = none) :
    (name :: way).foldlM t'.step l = .error .notFound := by
  have hmissing : ∀ part, t.find? (l ++ name :: part) = none := by
    intro part
    have hbehind := find?_of_missing hnone part
    rwa [List.append_assoc, List.singleton_append] at hbehind
  refine foldlM_step_missing (h.directory hl) hway hshort (fun part hne hpart => ?_)
    (hend.trans (hmissing way))
  obtain ⟨first, part, rfl⟩ := List.exists_cons_of_ne_nil hne
  obtain rfl : first = name := (List.cons_prefix_cons.1 hpart).1
  rcases h.found (l ++ first :: part) with hsame | ⟨-, hdirectory⟩ | ⟨hl', -⟩
  · exact holdsFile_eq_false.2 (.inl (hsame.trans (hmissing part)))
  · exact holdsFile_eq_false.2 (.inr hdirectory)
  · exact absurd hl' (hon _ hne hpart)

/-- New directories on the way, short of its end, lead nowhere. -/
theorem Changed.foldlM_step_eq {on : Location → Prop} (h : Changed on t t')
    (hl : t.find? l = some .directory) (hway : Ordinary way) (hshort : Short way)
    (hon : ∀ part, part ≠ [] → part <+: way → ¬ on (l ++ part))
    (hend : t'.find? (l ++ way) = t.find? (l ++ way)) :
    way.foldlM t'.step l = way.foldlM t.step l := by
  induction way generalizing l with
  | nil => rfl
  | cons name way ih =>
    obtain ⟨hname, hrest⟩ := List.forall_mem_cons.1 hway
    obtain ⟨hlength, hlengths⟩ := List.forall_mem_cons.1 hshort
    rcases h.found (l ++ [name]) with hsame | ⟨hnone, -⟩ | ⟨hl', -⟩
    · rw [List.foldlM_cons, List.foldlM_cons, step_of_name (h.directory hl) hname hlength,
        step_of_name hl hname hlength, hsame]
      cases hnode : t.find? (l ++ [name]) with
      | none => rfl
      | some node =>
        rw [if_neg (by simp), ok_bind, ok_bind]
        cases node with
        | directory =>
          refine ih hnode hrest hlengths (fun part hne hpart => ?_) (by simpa using hend)
          have hlonger := hon (name :: part) (List.cons_ne_nil _ _)
            ((List.prefix_append_right_inj [name]).2 hpart)
          rwa [List.append_assoc, List.singleton_append]
        | file content =>
          cases way with
          | nil => rfl
          | cons next way =>
            have hstop : ∀ {s : FileTree}, s.find? (l ++ [name]) = some (.file content) →
                s.step (l ++ [name]) next = .error .notDirectory :=
              fun hs => by simp [FileTree.step, hs]
            rw [List.foldlM_cons, List.foldlM_cons, hstop hnode, hstop (hsame.trans hnode)]
            rfl
    · rw [h.foldlM_step_new hl hway hshort hon hend hnone, List.foldlM_cons,
        step_of_name hl hname hlength, if_pos hnone]
      rfl
    · exact absurd hl' (hon [name] (List.cons_ne_nil _ _) (List.prefix_append [name] way))

/-- **A read is as before** if the end of the path is, and no file has come onto the way. -/
theorem Changed.read_eq {on : Location → Prop} (h : Changed on t t') (hpath : Onward t path l way)
    (hshort : Short way) (hon : ∀ part, part ≠ [] → part <+: way → ¬ on (l ++ part))
    (hend : t'.find? (l ++ way) = t.find? (l ++ way)) : t'.read path = t.read path := by
  cases htext : checkText path with
  | error cause => simp [FileTree.read, FileTree.locate, htext, bind, Except.bind]
  | ok _ =>
    have hthrough : Through t path l way := ⟨hpath, htext⟩
    have hfold := h.foldlM_step_eq hpath.directory hpath.ordinary hshort hon hend
    simp only [FileTree.read, FileTree.locate, htext, ok_bind, hthrough.follow,
      (hthrough.changed h).follow, hfold]
    cases hm : way.foldlM t.step l with
    | error cause => rfl
    | ok m =>
      obtain rfl := foldlM_step_ordinary hpath.ordinary hm
      simp only [ok_bind, hend]
      split
      · rfl
      · simp only [ok_bind, hend]

end Mixins.FileTree
