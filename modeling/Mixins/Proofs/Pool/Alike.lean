import Mixins.Proofs.Attempt
import Mixins.Proofs.Pool.Answers

/-!
# Two pools over two trees

What a pool answers depends on the types that it has, be they resident or in a file. So two pools,
each with its own file tree, answer alike as far as they have the same types.

* `Alike` — the pools have the same types under certain names.
* `Alike.load`, `Alike.put` — loads and changes keep it so.
* `residentType?_load_of_ne` — what else is resident.
-/

namespace Mixins.Pool

variable {files files' : FileTree} {p q : Pool} {name outer : String} {on : String → Prop}

/-- Whether `p` over the one tree has the same types as `q` over the other, under the names of which
`on` holds. -/
def Alike (files files' : FileTree) (on : String → Prop) (p q : Pool) : Prop :=
  ∀ outer, on outer → p.type? files outer = q.type? files' outer

namespace Alike

/-- **A load** fails alike or finds the same type, in a type that is resident in both pools then;
and what the pools have stays the same. -/
theorem load (h : Alike files files' on p q) (hname : on (Name.outermost name)) :
    ∃ p' q', Alike files files' on p' q' ∧
      ((∃ cause, p.load files name = (.error cause, p') ∧
          q.load files' name = (.error cause, q')) ∨
        ∃ t whole, p.load files name = (.ok t, p') ∧ q.load files' name = (.ok t, q') ∧
          p'.residentType? (Name.outermost name) = some whole ∧
          q'.residentType? (Name.outermost name) = some whole) := by
  have hfound : (p.load files name).1 = (q.load files' name).1 := by
    rw [load_fst, load_fst, h _ hname]
  have halike : Alike files files' on (p.load files name).2 (q.load files' name).2 := by
    intro outer ho
    rw [(load_agree files on p name).types outer ho, (load_agree files' on q name).types outer ho,
      h outer ho]
  refine ⟨_, _, halike, ?_⟩
  cases hp : p.load files name with
  | mk found p' =>
    cases hq : q.load files' name with
    | mk found' q' =>
      rw [hp, hq] at hfound
      obtain rfl : found = found' := hfound
      cases found with
      | error cause => exact .inl ⟨cause, rfl, rfl⟩
      | ok t =>
        obtain ⟨whole, hwhole, htype⟩ := load_resident hp
        obtain ⟨whole', hwhole', htype'⟩ := load_resident hq
        rw [h _ hname, htype', Except.ok.injEq, Option.some.injEq] at htype
        exact .inr ⟨t, whole, rfl, rfl, hwhole, htype ▸ hwhole'⟩

/-- **A type put in the place** of the same type of both pools. -/
theorem put {whole : TypeDef} (h : Alike files files' on p q)
    (hp : p.residentType? (Name.outermost name) = some whole)
    (hq : q.residentType? (Name.outermost name) = some whole) (t : TypeDef) :
    Alike files files' on (p.put name t) (q.put name t) := by
  intro outer ho
  by_cases hsame : outer = Name.outermost name
  · subst hsame
    rw [type?_of_resident (by rw [residentType?_put, hp, Option.map_some]),
      type?_of_resident (by rw [residentType?_put, hq, Option.map_some])]
  · rw [(put_agree files p name t).types outer hsame, (put_agree files' q name t).types outer hsame,
      h outer ho]

end Alike

/-! ## Residents of other names -/

/-- A load makes no other type resident. -/
theorem residentType?_load_of_ne (files : FileTree) (p : Pool) (h : outer ≠ Name.outermost name) :
    (p.load files name).2.residentType? outer = p.residentType? outer := by
  have hresident : ∀ p', p.withResident files name = .ok p' →
      p'.residentType? outer = p.residentType? outer := by
    intro p' hp
    unfold withResident at hp
    cases hname : p.residentType? (Name.outermost name) with
    | some t =>
      simp only [hname, pure_eq_ok] at hp
      rw [hp]
    | none =>
      simp only [hname, bind_eq_ok] at hp
      obtain ⟨found, -, hp⟩ := hp
      cases found with
      | none => cases hp
      | some t =>
        rw [← pure_eq_ok.1 hp]
        simp [residentType?, List.lookup_cons, beq_false_of_ne h]
  unfold load
  cases hp : p.withResident files name with
  | error cause => rfl
  | ok p' =>
    rw [← hresident p' hp]
    dsimp only
    split <;> rfl

end Mixins.Pool
