import Mixins.Proofs.FileTree.Reading

/-!
# What a replacement does

What a replacement does to a tree is said location by location: some are given a node or are
emptied, and the others stay as they are. Which, depends on what is on the way to the file and on
whether there are directories in the places of the file and of its temporary sibling.

* `Does` — what an operation does, as an `Effect`.
* `replace_uniform` — a replacement does the same to all trees that look alike from its file.
* `Does.comm` — effects that agree where they meet can be had in either order.
-/

namespace Mixins.FileTree

open Utf8 (Bytes)

variable {t t' t'' : FileTree} {l m : Location} {path : Path} {way : List String} {last : String}

/-! ## Effects -/

/-- What is at a location after an operation: `none` if what was there before. -/
abbrev Effect := Location → Option (Option Node)

namespace Effect

def nothing : Effect := fun _ => none

def creates (dirs : List Location) : Effect :=
  fun x => if x ∈ dirs then some (some .directory) else none

def set (l : Location) (node : Option Node) : Effect :=
  fun x => if x = l then some node else none

def andThen (first later : Effect) : Effect := fun x => (later x).or (first x)

variable {first later : Effect} {dirs : List Location} {x : Location} {node node' : Option Node}

theorem creates_eq_some (x : Location) (node : Option Node) (h : creates dirs x = some node) :
    x ∈ dirs ∧ node = some .directory := by
  unfold creates at h
  split at h
  · rename_i hx
    exact ⟨hx, (Option.some.inj h).symm⟩
  · cases h

theorem eq_of_set (h : set l node x = some node') : x = l := by
  unfold set at h
  split at h
  · assumption
  · cases h

theorem andThen_eq_some (h : first.andThen later x = some node) :
    first x = some node ∨ later x = some node := by
  rcases Option.or_eq_some_iff.1 h with hlater | ⟨-, hfirst⟩
  · exact .inr hlater
  · exact .inl hfirst

end Effect

open Effect

/-- Whether the effect makes `t'` of `t`. -/
structure Does (t : FileTree) (effect : Effect) (t' : FileTree) : Prop where
  start : t'.start = t.start
  found : ∀ x, t'.find? x = (effect x).getD (t.find? x)

namespace Does

variable {first later : Effect}

theorem refl (t : FileTree) : Does t nothing t := ⟨rfl, fun _ => rfl⟩

theorem trans (h : Does t first t') (h' : Does t' later t'') :
    Does t (first.andThen later) t'' := by
  refine ⟨h'.start.trans h.start, fun x => ?_⟩
  rw [h'.found, h.found, andThen]
  cases later x <;> rfl

/-- **Effects that agree where they meet** can be had in either order. -/
theorem comm {t₁ t₂ t₁₂ t₂₁ : FileTree} (h₁ : Does t first t₁) (h₁₂ : Does t₁ later t₁₂)
    (h₂ : Does t later t₂) (h₂₁ : Does t₂ first t₂₁)
    (hagree : ∀ x node node', first x = some node → later x = some node' → node = node') :
    Alike t₁₂ t₂₁ := by
  refine ⟨?_, fun x => ?_⟩
  · rw [h₁₂.start, h₁.start, h₂₁.start, h₂.start]
  · rw [h₁₂.found, h₁.found, h₂₁.found, h₂.found]
    cases hfirst : first x with
    | none => rfl
    | some node =>
      cases hlater : later x with
      | none => rfl
      | some node' => exact (hagree x node node' hfirst hlater).symm

end Does

/-! ## The steps of a replacement -/

theorem ending_of_checkText {cause : SystemError} (h : checkText path = .error cause) :
    t.ending path = .error cause := by
  unfold ending
  rw [h]
  rfl

theorem createAll_of_checkText {cause : SystemError} {above : List Path}
    (h : checkText path = .error cause) (hempty : path ≠ Path.empty) :
    t.createAll (path :: above) = (t, .error cause) := by
  have hfound : cause ≠ .notFound := by
    rintro rfl
    unfold checkText at h
    split at h
    · cases h
    · split at h
      · rename_i htext
        exact hempty (congrArg Path.mk htext)
      · split at h <;> cases h
  have hlocate : t.locate path = .error cause := by
    unfold locate
    rw [h]
    rfl
  rw [createAll, if_neg hempty, createDirectory_eq_error (ending_of_checkText h)]
  cases cause with
  | notFound => exact absurd rfl hfound
  | _ => simp [createAll.settle, isDirectory, hlocate]

theorem createParents_eq {parent : Path} (hparent : path.parent? = some parent) :
    t.createParents path = ((t.createAll (withParents parent)).1,
      (t.createAll (withParents parent)).2.mapError (.createDirectory parent)) := by
  unfold createParents FileSystem.createParents
  rw [hparent]
  rfl

theorem createParents_of_empty (hparent : path.parent? = some Path.empty) :
    t.createParents path = (t, .ok ()) := by
  rw [createParents_eq hparent, withParents, withParents.go, createAll, if_pos rfl]
  rfl

theorem createParents_of_checkText {parent : Path} {cause : SystemError}
    (hparent : path.parent? = some parent) (h : checkText parent = .error cause)
    (hempty : parent ≠ Path.empty) :
    t.createParents path = (t, .error (.createDirectory parent cause)) := by
  rw [createParents_eq hparent, withParents, withParents.go, createAll_of_checkText h hempty]
  rfl

/-- What creating the directories above a file comes to, if the way to them can be followed. -/
theorem Through.createParents {parent : Path} (hparent : path.parent? = some parent)
    (h : Through t parent l way) :
    Does t (creates (t.clear l way).1) (t.createParents path).1 ∧
      (t.createParents path).2 = (match (t.clear l way).2 with
        | none => .ok ()
        | some cause => .error (.createDirectory parent cause)) ∧
      ((t.clear l way).2 = none →
        way.foldlM (t.createParents path).1.step l = .ok (l ++ way) ∧
          (t.createParents path).1.find? (l ++ way) = some .directory) := by
  have hl : (t.createAll (withParents parent)).1.find? l = some .directory :=
    (createAll_changed (fun _ => False) t _).directory h.directory
  obtain ⟨hstart, hfound, houtcome⟩ := h.createAll
  rw [createParents_eq hparent]
  refine ⟨⟨hstart, fun x => ?_⟩, ?_, fun hclear => ?_⟩
  · rw [hfound, creates]
    split <;> rfl
  · dsimp only
    rw [houtcome]
    cases (t.clear l way).2 <;> rfl
  · exact foldlM_step_cleared hl h.ordinary hclear fun x hx => by rw [hfound, if_pos hx]

/-- **Creating the directories above a file** does the same to all trees with the same way. -/
theorem createParents_uniform (path : Path) (l : Location) (way : List String)
    (cleared : List Location × Option SystemError) : ∃ effect outcome,
    (∀ x node, effect x = some node → x ∈ cleared.1 ∧ node = some .directory) ∧
    ∀ t last, Onward t path l (way ++ [last]) → t.clear l way = cleared →
      Does t effect (t.createParents path).1 ∧ (t.createParents path).2 = outcome ∧
      (outcome = .ok () → way.foldlM (t.createParents path).1.step l = .ok (l ++ way) ∧
        (t.createParents path).1.find? (l ++ way) = some .directory) := by
  have hnothing : ∀ x node, nothing x = some node → x ∈ cleared.1 ∧ node = some .directory :=
    fun _ _ h => nomatch h
  cases hparent : path.parent? with
  | none =>
    refine ⟨nothing, .ok (), hnothing, fun t last h => ?_⟩
    obtain ⟨parent, hsome, -⟩ := h.parent
    rw [hparent] at hsome
    cases hsome
  | some parent =>
    have honward : ∀ {t last}, Onward t path l (way ++ [last]) → Onward t parent l way := by
      intro t last h
      obtain ⟨parent', hsome, hway, -⟩ := h.parent
      rw [hparent, Option.some.injEq] at hsome
      exact hsome ▸ hway
    cases htext : checkText parent with
    | error cause =>
      by_cases hempty : parent = Path.empty
      · subst hempty
        refine ⟨nothing, .ok (), hnothing, fun t last h _ => ?_⟩
        obtain ⟨init, hnames, -⟩ := (honward h).names
        have hnone : names Path.empty = [] := by decide
        rw [hnone] at hnames
        obtain rfl : way = [] := (List.append_eq_nil_iff.1 hnames.symm).2
        rw [createParents_of_empty hparent, List.append_nil]
        exact ⟨.refl t, rfl, fun _ => ⟨rfl, h.directory⟩⟩
      · refine ⟨nothing, .error (.createDirectory parent cause), hnothing, fun t last _ _ => ?_⟩
        rw [createParents_of_checkText hparent htext hempty]
        exact ⟨.refl t, rfl, fun hok => nomatch hok⟩
    | ok _ =>
      refine ⟨creates cleared.1, match cleared.2 with
        | none => .ok ()
        | some cause => .error (.createDirectory parent cause), creates_eq_some, ?_⟩
      rintro t last h rfl
      obtain ⟨hdoes, houtcome, hway⟩ := Through.createParents hparent ⟨honward h, htext⟩
      refine ⟨hdoes, houtcome, fun hok => hway ?_⟩
      cases hcause : (t.clear l way).2 with
      | none => rfl
      | some cause => simp [hcause] at hok

/-- Whether an operation is refused with the cause, or else succeeds and has the effect. -/
def Comes (t : FileTree) (result : Except SystemError FileTree) (refused : Option SystemError)
    (effect : Effect) : Prop :=
  match refused with
  | some cause => result = .error cause
  | none => ∃ t', result = .ok t' ∧ Does t effect t'

theorem Through.putFile_eq (h : Through t path l [last]) (hslash : endsInSlash path = false)
    (content : Bytes) : t.putFile path content =
      if maxNameSize < last.utf8ByteSize then .error .nameTooLong
      else if t.find? (l ++ [last]) = some .directory then .error .isDirectory
      else orElse .notDirectory (t.put? (l ++ [last]) (.file content)) := by
  unfold putFile
  rw [h.ending_eq_name, hslash, ok_bind]
  simp only [nameTooLong_concat, decide_eq_true_eq]

/-- **Writing a file** does the same to all trees that agree on whether there is a directory in its
place. -/
theorem putFile_uniform (path : Path) (l : Location) (last : String) (taken : Bool)
    (content : Bytes) : ∃ refused, ∀ t, Onward t path l [last] → endsInSlash path = false →
      (t.find? (l ++ [last]) == some .directory) = taken →
      Comes t (t.putFile path content) refused (set (l ++ [last]) (some (.file content))) := by
  cases htext : checkText path with
  | error cause =>
    refine ⟨some cause, fun t _ _ _ => ?_⟩
    unfold putFile
    rw [ending_of_checkText htext]
    rfl
  | ok _ =>
    by_cases hlong : maxNameSize < last.utf8ByteSize
    · refine ⟨some .nameTooLong, fun t h hslash _ => ?_⟩
      rw [Through.putFile_eq ⟨h, htext⟩ hslash, if_pos hlong]
      rfl
    · cases taken with
      | true =>
        refine ⟨some .isDirectory, fun t h hslash htaken => ?_⟩
        rw [Through.putFile_eq ⟨h, htext⟩ hslash, if_neg hlong, if_pos (beq_iff_eq.1 htaken)]
        rfl
      | false =>
        refine ⟨none, fun t h hslash htaken => ?_⟩
        have hfree : t.find? (l ++ [last]) ≠ some .directory := beq_eq_false_iff_ne.1 htaken
        obtain ⟨t', hput, hstart, hfound⟩ :=
          Through.put? ⟨h, htext⟩ hlong hfree (.file content)
        refine ⟨t', ?_, hstart, fun x => ?_⟩
        · rw [Through.putFile_eq ⟨h, htext⟩ hslash, if_neg hlong, if_neg hfree, hput]
          rfl
        · rw [hfound]
          unfold Effect.set
          split <;> rfl

/-- A file that is moved to another name in its directory. -/
theorem Through.moveFile_eq {source destination : Path} {sibling name : String} {content : Bytes}
    (h : Through t source l [sibling]) (h' : Through t destination l [name])
    (hslash : endsInSlash source = false) (hslash' : endsInSlash destination = false)
    (hne : l ++ [name] ≠ l ++ [sibling])
    (hfile : t.find? (l ++ [sibling]) = some (.file content)) :
    t.moveFile source destination =
      if nameTooLong (l ++ [sibling]) || nameTooLong (l ++ [name]) then .error .nameTooLong
      else if t.find? (l ++ [name]) = some .directory then .error .isDirectory
      else (orElse .notDirectory (t.put? (l ++ [name]) (.file content))).map
        (·.erase (l ++ [sibling])) := by
  unfold moveFile
  rw [h.ending_eq_name, h'.ending_eq_name, hslash, hslash', ok_bind, ok_bind]
  dsimp only
  rw [hfile]
  cases nameTooLong (l ++ [sibling]) <;> cases nameTooLong (l ++ [name]) <;> simp [hne]

/-- The file is put under the other name, and then it is gone under its own. -/
theorem Through.put_erase {sibling name : String} {content : Bytes}
    (h : Through t path l [name]) (hshort : nameTooLong (l ++ [name]) = false)
    (hfree : t.find? (l ++ [name]) ≠ some .directory) (hne : l ++ [name] ≠ l ++ [sibling])
    (hfile : t.find? (l ++ [sibling]) = some (.file content)) :
    Comes t ((orElse .notDirectory (t.put? (l ++ [name]) (.file content))).map
        (·.erase (l ++ [sibling]))) none
      ((set (l ++ [sibling]) none).andThen (set (l ++ [name]) (some (.file content)))) := by
  rw [nameTooLong_concat] at hshort
  obtain ⟨t', hput, -⟩ := h.put? (of_decide_eq_false hshort) hfree (.file content)
  have hmoved : (orElse .notDirectory (t.put? (l ++ [name]) (.file content))).map
      (·.erase (l ++ [sibling])) = .ok (t'.erase (l ++ [sibling])) := by
    rw [hput]
    rfl
  obtain ⟨hstart, hfound⟩ := put_erase_eq_ok hfile hne hmoved
  refine ⟨_, hmoved, hstart, fun x => ?_⟩
  rw [hfound]
  unfold andThen Effect.set
  by_cases hx : x = l ++ [name]
  · rw [if_pos hx, if_pos hx]
    rfl
  · rw [if_neg hx, if_neg hx]
    split <;> rfl

/-- **Moving a file** to another name does the same to all trees that agree on whether there is a
directory in its place. -/
theorem moveFile_uniform (source destination : Path) (l : Location) {sibling name : String}
    (hne : name ≠ sibling) (taken : Bool) (content : Bytes) : ∃ refused, ∀ t,
      Onward t source l [sibling] → Onward t destination l [name] →
      endsInSlash source = false → endsInSlash destination = false →
      t.find? (l ++ [sibling]) = some (.file content) →
      (t.find? (l ++ [name]) == some .directory) = taken →
      Comes t (t.moveFile source destination) refused
        ((set (l ++ [sibling]) none).andThen (set (l ++ [name]) (some (.file content)))) := by
  have hother : l ++ [name] ≠ l ++ [sibling] := by simpa using hne
  cases htext : checkText source with
  | error cause =>
    refine ⟨some cause, fun t _ _ _ _ _ _ => ?_⟩
    unfold moveFile
    rw [ending_of_checkText htext]
    rfl
  | ok _ =>
    cases htext' : checkText destination with
    | error cause =>
      refine ⟨some cause, fun t h _ _ _ _ _ => ?_⟩
      unfold moveFile
      rw [Through.ending_eq_name ⟨h, htext⟩, ok_bind, ending_of_checkText htext']
      rfl
    | ok _ =>
      cases hlong : nameTooLong (l ++ [sibling]) || nameTooLong (l ++ [name]) with
      | true =>
        refine ⟨some .nameTooLong, fun t h h' hslash hslash' hfile _ => ?_⟩
        rw [Through.moveFile_eq ⟨h, htext⟩ ⟨h', htext'⟩ hslash hslash' hother hfile, hlong]
        rfl
      | false =>
        cases taken with
        | true =>
          refine ⟨some .isDirectory, fun t h h' hslash hslash' hfile htaken => ?_⟩
          rw [Through.moveFile_eq ⟨h, htext⟩ ⟨h', htext'⟩ hslash hslash' hother hfile, hlong,
            if_neg Bool.false_ne_true, if_pos (beq_iff_eq.1 htaken)]
          rfl
        | false =>
          refine ⟨none, fun t h h' hslash hslash' hfile htaken => ?_⟩
          have hfree : t.find? (l ++ [name]) ≠ some .directory := beq_eq_false_iff_ne.1 htaken
          rw [Through.moveFile_eq ⟨h, htext⟩ ⟨h', htext'⟩ hslash hslash' hother hfile, hlong,
            if_neg Bool.false_ne_true, if_neg hfree]
          exact Through.put_erase ⟨h', htext'⟩ (Bool.or_eq_false_iff.1 hlong).2 hfree hother hfile

/-! ## A replacement -/

/-- Whether the path leads through the way to a file name, and the temporary sibling's through the
same way to its own. -/
structure Site (t : FileTree) (path : Path) (l : Location) (way : List String)
    (name sibling : String) : Prop where
  own : Onward t path l (way ++ [name])
  beside : Onward t path.temporary l (way ++ [sibling])
  slash : endsInSlash path = false
  slashBeside : endsInSlash path.temporary = false

/-- How a tree looks from a file: the directories on the way and the obstacle, and whether there are
directories in the places of the file and of its temporary sibling. -/
structure View where
  cleared : List Location × Option SystemError
  taken : Bool
  takenBeside : Bool

def view (t : FileTree) (l : Location) (way : List String) (name sibling : String) : View :=
  ⟨t.clear l way, t.find? (l ++ way ++ [name]) == some .directory,
    t.find? (l ++ way ++ [sibling]) == some .directory⟩

variable {name sibling : String} {content : Bytes}

/-- The directory of the file has been created, and nothing in it has changed. -/
theorem Site.ready {effect : Effect} (h : Site t path l way name sibling)
    (hmade : ∀ x node, effect x = some node → x ∈ (t.clear l way).1 ∧ node = some .directory)
    (hdoes : Does t effect (t.createParents path).1)
    (hway : way.foldlM (t.createParents path).1.step l = .ok (l ++ way))
    (hdirectory : (t.createParents path).1.find? (l ++ way) = some .directory) :
    Site (t.createParents path).1 path (l ++ way) [] name sibling ∧
      ∀ last, (t.createParents path).1.find? (l ++ way ++ [last]) =
        t.find? (l ++ way ++ [last]) := by
  have hchanged := createParents_changed (fun _ => False) t path
  refine ⟨⟨(h.own.changed hchanged).advance hway hdirectory,
    (h.beside.changed hchanged).advance hway hdirectory, h.slash, h.slashBeside⟩, fun last => ?_⟩
  rw [hdoes.found]
  cases heffect : effect (l ++ way ++ [last]) with
  | none => rfl
  | some node => exact absurd (hmade _ node heffect).1 (not_mem_clear t l way last)

/-- **Writing a file and moving it into place** does the same to all trees that agree on whether
there are directories in both places. -/
theorem replaceThere_uniform (path : Path) (content : Bytes) (l : Location) (hne : name ≠ sibling)
    (taken takenBeside : Bool) : ∃ effect outcome,
    (∀ x node, effect x = some node → x = l ++ [name] ∨ x = l ++ [sibling]) ∧
    ∀ t, Site t path l [] name sibling → (t.find? (l ++ [name]) == some .directory) = taken →
      (t.find? (l ++ [sibling]) == some .directory) = takenBeside →
      Does t effect (t.replaceThere path content).1 ∧
        (t.replaceThere path content).2 = outcome := by
  have hother : l ++ [name] ≠ l ++ [sibling] := by simpa using hne
  obtain ⟨refused, hwrite⟩ := putFile_uniform path.temporary l sibling takenBeside content
  cases refused with
  | some cause =>
    have hnothing : ∀ x node, nothing x = some node → x = l ++ [name] ∨ x = l ++ [sibling] :=
      fun _ _ h => nomatch h
    refine ⟨nothing, .error (.writeTemporary path.temporary cause), hnothing,
      fun t h _ htaken => ?_⟩
    have hrefused : t.putFile path.temporary content = .error cause :=
      hwrite t h.beside h.slashBeside htaken
    unfold replaceThere
    rw [hrefused]
    exact ⟨.refl t, rfl⟩
  | none =>
    obtain ⟨refused, hmove⟩ := moveFile_uniform path.temporary path l hne taken content
    have hwritten : ∀ t, Site t path l [] name sibling →
        (t.find? (l ++ [name]) == some .directory) = taken →
        (t.find? (l ++ [sibling]) == some .directory) = takenBeside →
        ∃ t₁, t.putFile path.temporary content = .ok t₁ ∧
          Does t (set (l ++ [sibling]) (some (.file content))) t₁ ∧
          Comes t₁ (t₁.moveFile path.temporary path) refused
            ((set (l ++ [sibling]) none).andThen (set (l ++ [name]) (some (.file content)))) := by
      intro t h htaken htaken'
      obtain ⟨t₁, hok, hput⟩ := hwrite t h.beside h.slashBeside htaken'
      have hchanged := putFile_changed hok
      refine ⟨t₁, hok, hput, hmove t₁ (h.beside.changed hchanged) (h.own.changed hchanged)
        h.slashBeside h.slash ?_ ?_⟩
      · rw [hput.found, Effect.set, if_pos rfl]
        rfl
      · rw [hput.found, Effect.set, if_neg hother]
        exact htaken
    cases refused with
    | some cause =>
      refine ⟨set (l ++ [sibling]) (some (.file content)),
        .error (.moveIntoPlace path.temporary path cause), fun x node hx => ?_,
        fun t h htaken htaken' => ?_⟩
      · exact .inr (eq_of_set hx)
      · obtain ⟨t₁, hok, hdoes, hrefused⟩ := hwritten t h htaken htaken'
        have hrefused : t₁.moveFile path.temporary path = .error cause := hrefused
        unfold replaceThere
        simp only [hok, hrefused]
        exact ⟨hdoes, trivial⟩
    | none =>
      refine ⟨(set (l ++ [sibling]) (some (.file content))).andThen
        ((set (l ++ [sibling]) none).andThen (set (l ++ [name]) (some (.file content)))), .ok (),
        fun x node hx => ?_, fun t h htaken htaken' => ?_⟩
      · rcases andThen_eq_some hx with hx | hx
        · exact .inr (eq_of_set hx)
        · exact (andThen_eq_some hx).symm.imp eq_of_set eq_of_set
      · obtain ⟨t₁, hok, hdoes, t₂, hmoved, hput⟩ := hwritten t h htaken htaken'
        unfold replaceThere
        simp only [hok, hmoved]
        exact ⟨hdoes.trans hput, trivial⟩

/-- **A replacement** does the same to all trees that look alike from the file. -/
theorem replace_uniform (path : Path) (content : Bytes) (l : Location) (way : List String)
    (hne : name ≠ sibling) (v : View) : ∃ effect outcome,
    (∀ x node, effect x = some node → (x ∈ v.cleared.1 ∧ node = some .directory) ∨
      x = l ++ way ++ [name] ∨ x = l ++ way ++ [sibling]) ∧
    ∀ t, Site t path l way name sibling → t.view l way name sibling = v →
      Does t effect (t.replace path content).1 ∧ (t.replace path content).2 = outcome := by
  obtain ⟨made, created, hmade, hparents⟩ := createParents_uniform path l way v.cleared
  cases created with
  | error cause =>
    refine ⟨made, .error cause, fun x node hx => .inl (hmade x node hx), fun t h hv => ?_⟩
    obtain ⟨hdoes, houtcome, -⟩ := hparents t name h.own (congrArg View.cleared hv)
    have hcreate : t.createParents path = ((t.createParents path).1, .error cause) :=
      Prod.ext rfl houtcome
    rw [replace_eq, hcreate]
    exact ⟨hdoes, rfl⟩
  | ok _ =>
    obtain ⟨effect, outcome, htouch, hthere⟩ :=
      replaceThere_uniform path content (l ++ way) hne v.taken v.takenBeside
    refine ⟨made.andThen effect, outcome, fun x node hx => ?_, ?_⟩
    · exact (andThen_eq_some hx).imp (hmade x node) (htouch x node)
    · rintro t h rfl
      obtain ⟨hdoes, houtcome, hway⟩ := hparents t name h.own rfl
      obtain ⟨hsite, hsame⟩ := h.ready hmade hdoes (hway rfl).1 (hway rfl).2
      have hcreate : t.createParents path = ((t.createParents path).1, .ok ()) :=
        Prod.ext rfl houtcome
      obtain ⟨hdoes', houtcome'⟩ := hthere _ hsite (by rw [hsame]; rfl) (by rw [hsame]; rfl)
      rw [replace_eq, hcreate]
      exact ⟨hdoes.trans hdoes', houtcome'⟩

end Mixins.FileTree
