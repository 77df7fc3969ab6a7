import Mixins.Pool
import Mixins.Proofs.Descendant

/-!
# What a pool answers

The answer to a load depends on what the pool has under the name of the outermost type: the resident
type or, if there is none, the type that the sources have. A load makes a type resident, which
changes no later answer as long as the type files stay as they are. Only putting a type does, and
only below its own outermost type.

* `load_fst` — the answer.
* `Agree` — two pools that have the same types under certain names.
* `load_agree`, `put_agree` — what a load and a change keep.
* `current?_put` — a type that has been put is found under its name.
* `loadEach_congr`, `Agree.loadEach` — pools that agree answer alike, however many loads there are.
-/

namespace Mixins.Pool

variable {files : FileTree} {p q r : Pool} {name outer : String}

/-- What the pool has under the name of an outermost type. -/
def type? (files : FileTree) (p : Pool) (outer : String) : Except Failure (Option TypeDef) :=
  match p.residentType? outer with
  | some t => .ok (some t)
  | none => firstType? files outer p.sources

/-- What a load answers if the pool has `found` under the name of the outermost type. -/
def answer (name : String) (found : Except Failure (Option TypeDef)) : Except Failure TypeDef :=
  match found with
  | .error cause => .error cause
  | .ok found =>
    match found.bind (·.descendant? (Name.chain name)) with
    | some t => .ok t
    | none => .error (.notFound name)

theorem answer_eq_ok_iff {found : Except Failure (Option TypeDef)} {t : TypeDef} :
    answer name found = .ok t ↔
      ∃ whole, found = .ok (some whole) ∧ whole.descendant? (Name.chain name) = some t := by
  unfold answer
  cases found with
  | error cause => simp
  | ok found =>
    cases found with
    | none => simp
    | some whole => cases hpart : whole.descendant? (Name.chain name) <;> simp [hpart]

theorem type?_of_resident {t : TypeDef} (h : p.residentType? outer = some t) :
    p.type? files outer = .ok (some t) := by
  simp [type?, h]

/-! ## Pools that agree -/

/-- Whether the two pools have the same types under the names of which `on` holds. -/
structure Agree (files : FileTree) (on : String → Prop) (p q : Pool) : Prop where
  sources : p.sources = q.sources
  types : ∀ outer, on outer → p.type? files outer = q.type? files outer

namespace Agree

variable {on on' : String → Prop}

theorem refl (files : FileTree) (on : String → Prop) (p : Pool) : Agree files on p p :=
  ⟨rfl, fun _ _ => rfl⟩

theorem symm (h : Agree files on p q) : Agree files on q p :=
  ⟨h.sources.symm, fun outer ho => (h.types outer ho).symm⟩

theorem trans (hpq : Agree files on p q) (hqr : Agree files on q r) : Agree files on p r :=
  ⟨hpq.sources.trans hqr.sources, fun outer ho => (hpq.types outer ho).trans (hqr.types outer ho)⟩

theorem mono (h : Agree files on p q) (hsub : ∀ outer, on' outer → on outer) :
    Agree files on' p q :=
  ⟨h.sources, fun outer ho => h.types outer (hsub outer ho)⟩

/-- What is resident in both pools is the same type. -/
theorem resident_eq {t t' : TypeDef} (h : Agree files on p q) (ho : on outer)
    (ht : p.residentType? outer = some t) (ht' : q.residentType? outer = some t') : t = t' := by
  have hsame := h.types outer ho
  rw [type?_of_resident ht, type?_of_resident ht'] at hsame
  simpa using hsame

end Agree

/-! ## Loading -/

/-- A type becomes resident under the name of its file and is what the pool had there before. -/
theorem withResident_eq_ok {p' : Pool} (h : p.withResident files name = .ok p') :
    (∃ t, p'.residentType? (Name.outermost name) = some t ∧
      p.type? files (Name.outermost name) = .ok (some t)) ∧
    ∀ on, Agree files on p' p := by
  unfold withResident at h
  cases hresident : p.residentType? (Name.outermost name) with
  | some t =>
    simp only [hresident, pure, Except.pure, Except.ok.injEq] at h
    subst h
    exact ⟨⟨t, hresident, type?_of_resident hresident⟩, fun on => .refl files on p⟩
  | none =>
    simp only [hresident] at h
    cases hfirst : firstType? files (Name.outermost name) p.sources with
    | error cause => simp [hfirst, bind, Except.bind] at h
    | ok found =>
      cases found with
      | none => simp [hfirst, bind, Except.bind] at h
      | some t =>
        simp only [hfirst, bind, Except.bind, pure, Except.pure, Except.ok.injEq] at h
        subst h
        refine ⟨⟨t, by simp [residentType?], by simp [type?, hresident, hfirst]⟩, fun on =>
          ⟨rfl, fun outer _ => ?_⟩⟩
        by_cases ho : outer = Name.outermost name
        · subst ho
          simp only [type?, hresident, hfirst]
          simp [residentType?]
        · simp [type?, residentType?, List.lookup_cons, beq_false_of_ne ho]

theorem withResident_eq_error {cause : Failure} (h : p.withResident files name = .error cause) :
    answer name (p.type? files (Name.outermost name)) = .error cause := by
  unfold withResident at h
  cases hresident : p.residentType? (Name.outermost name) with
  | some t => simp [hresident, pure, Except.pure] at h
  | none =>
    simp only [hresident] at h
    cases hfirst : firstType? files (Name.outermost name) p.sources with
    | error cause' => simpa [hfirst, bind, Except.bind, answer, type?, hresident] using h
    | ok found =>
      cases found with
      | none => simpa [hfirst, bind, Except.bind, answer, type?, hresident] using h
      | some t => simp [hfirst, bind, Except.bind, pure, Except.pure] at h

/-- **The answer to a load** depends only on what the pool has under the outermost name. -/
theorem load_fst (files : FileTree) (p : Pool) (name : String) :
    (p.load files name).1 = answer name (p.type? files (Name.outermost name)) := by
  unfold load
  cases h : p.withResident files name with
  | error cause => exact (withResident_eq_error h).symm
  | ok p' =>
    obtain ⟨⟨t, hresident, htype⟩, -⟩ := withResident_eq_ok h
    simp only [htype, answer, hresident, Option.bind_some]
    cases t.descendant? (Name.chain name) <;> rfl

theorem load_agree (files : FileTree) (on : String → Prop) (p : Pool) (name : String) :
    Agree files on (p.load files name).2 p := by
  unfold load
  cases h : p.withResident files name with
  | error cause => exact .refl files on p
  | ok p' =>
    have hagree := (withResident_eq_ok h).2 on
    simp only
    split
    · exact hagree
    · exact hagree

/-- A type that a load answers is resident in the end. -/
theorem load_eq_ok {p' : Pool} {t : TypeDef} (h : p.load files name = (.ok t, p')) :
    (p'.residentType? (Name.outermost name)).bind (·.descendant? (Name.chain name)) = some t := by
  unfold load at h
  cases hp : p.withResident files name with
  | error cause => simp [hp] at h
  | ok p₁ =>
    simp only [hp] at h
    split at h
    · rename_i hfound
      obtain ⟨⟨⟩, rfl⟩ := Prod.mk.inj h
      exact hfound
    · cases (Prod.mk.inj h).1

/-- The type of the given name, if it lies in a resident type. -/
abbrev current? (p : Pool) (name : String) : Option TypeDef :=
  (p.residentType? (Name.outermost name)).bind (·.descendant? (Name.chain name))

theorem Agree.current?_eq {on : String → Prop} {t t' : TypeDef} (h : Agree files on p q)
    (ho : on (Name.outermost name)) (ht : p.current? name = some t)
    (ht' : q.current? name = some t') : t = t' := by
  obtain ⟨whole, hwhole, hpart⟩ := Option.bind_eq_some_iff.1 ht
  obtain ⟨whole', hwhole', hpart'⟩ := Option.bind_eq_some_iff.1 ht'
  obtain rfl := h.resident_eq ho hwhole hwhole'
  exact Option.some.inj (hpart.symm.trans hpart')

/-- The outermost type that a load answers from is resident in the end, and is what the pool had. -/
theorem load_resident {p' : Pool} {t : TypeDef} (h : p.load files name = (.ok t, p')) :
    ∃ whole, p'.residentType? (Name.outermost name) = some whole ∧
      p.type? files (Name.outermost name) = .ok (some whole) := by
  unfold load at h
  cases hp : p.withResident files name with
  | error cause => simp [hp] at h
  | ok p₁ =>
    simp only [hp] at h
    split at h
    · obtain ⟨-, rfl⟩ := Prod.mk.inj h
      exact (withResident_eq_ok hp).1
    · cases (Prod.mk.inj h).1

/-- **A type that has been put** in place of one of the same name is found there. -/
theorem current?_put {t t' : TypeDef} (h : p.current? name = some t) (hname : t'.name = t.name) :
    (p.put name t').current? name = some t' := by
  obtain ⟨whole, hwhole, ht⟩ := Option.bind_eq_some_iff.1 h
  obtain ⟨whole', hput, ht'⟩ :=
    TypeDef.descendant?_modifyDescendant? (f := fun _ => t') ht hname
  rw [current?, residentType?_put, hwhole, Option.map_some, Option.bind_some, replaceAt,
    if_pos rfl, hput, Option.getD_some, ht']

/-- Putting a type changes nothing outside the outermost type around it. -/
theorem put_agree (files : FileTree) (p : Pool) (name : String) (t : TypeDef) :
    Agree files (· ≠ Name.outermost name) (p.put name t) p := by
  refine ⟨rfl, fun outer ho => ?_⟩
  simp only [type?, residentType?_put_of_ne p ho]
  rfl

theorem writeBack_agree (files : FileTree) (on : String → Prop) (p : Pool) (name : String)
    (root : OutputRoot) : Agree files on (p.writeBack files name root).2.1 p := by
  unfold writeBack
  cases h : p.withResident files name with
  | error cause => exact .refl files on p
  | ok p' =>
    have hagree := (withResident_eq_ok h).2 on
    simp only
    split
    · exact hagree
    · exact hagree

/-! ## Several loads -/

/-- The answers to several loads, one after the other. -/
def loadEach (files : FileTree) : Pool → List String → List (Except Failure TypeDef)
  | _, [] => []
  | p, name :: names =>
    let (found, p) := p.load files name
    found :: p.loadEach files names

/-- **The answers are the same** if the pools have the same types under the outermost names, each
over its own files. -/
theorem loadEach_congr {files' : FileTree} {names : List String}
    (h : ∀ name ∈ names,
      p.type? files (Name.outermost name) = q.type? files' (Name.outermost name)) :
    p.loadEach files names = q.loadEach files' names := by
  induction names generalizing p q with
  | nil => rfl
  | cons name names ih =>
    obtain ⟨hname, hnames⟩ := List.forall_mem_cons.1 h
    have hfound : (p.load files name).1 = (q.load files' name).1 := by
      rw [load_fst, load_fst, hname]
    have hrest := ih fun other hother =>
      ((load_agree files (fun _ => True) p name).types _ trivial).trans
        ((hnames other hother).trans
          ((load_agree files' (fun _ => True) q name).types _ trivial).symm)
    simp only [Pool.loadEach, hfound, hrest]

namespace Agree

variable {on : String → Prop}

/-- **Pools that agree answer alike.** -/
theorem loadEach {names : List String} (h : Agree files on p q)
    (hnames : ∀ name ∈ names, on (Name.outermost name)) :
    p.loadEach files names = q.loadEach files names :=
  loadEach_congr fun name hname => h.types _ (hnames name hname)

/-- Two pools still agree when other files have changed, but none that the sources are asked for. -/
theorem later {later : FileTree} (h : Agree files on p q)
    (hlater : ∀ outer, firstType? later outer p.sources = firstType? files outer p.sources) :
    Agree later on p q := by
  have htype : ∀ r : Pool, r.sources = p.sources → ∀ outer,
      r.type? later outer = r.type? files outer := by
    intro r hr outer
    cases hresident : r.residentType? outer with
    | some t => simp [type?, hresident]
    | none => simp only [type?, hresident, hr, hlater]
  refine ⟨h.sources, fun outer ho => ?_⟩
  rw [htype p rfl, htype q h.sources.symm, h.types outer ho]

end Agree

end Mixins.Pool
