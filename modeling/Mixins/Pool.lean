import Mixins.Module
import Mixins.OutputRoot

/-!
# The merge pool

The types that are being merged. An outermost type becomes resident when it, or a type nested in it,
is first asked for, and from then on every change to it is seen by whoever asks again.

Principal statements: `residentType?_put`, `residentType?_put_of_ne` — a changed type is seen under
its own outermost name, and the others as before.
-/

namespace Mixins

open Utf8 (Bytes)

structure Pool where
  sources : List Module.Source
  /-- The resident types, by the name under which they were asked for. -/
  types : List (String × TypeDef)
  deriving DecidableEq, Inhabited

namespace Pool

def ofSources (sources : List Module.Source) : Pool := ⟨sources, []⟩

/-- The type in the first of the sources that has a file for it. -/
def firstType? (files : FileTree) (outer : String) :
    List Module.Source → Except Failure (Option TypeDef)
  | [] => .ok none
  | source :: rest => do
    match ← source.typeBytes? files outer with
    | none => firstType? files outer rest
    | some content => return some (← TypeDef.ofBytes content (source.context outer))

def residentType? (p : Pool) (outer : String) : Option TypeDef := p.types.lookup outer

/-- The pool in which the outermost type around the one named is resident. -/
def withResident (files : FileTree) (p : Pool) (name : String) : Except Failure Pool := do
  let outer := Name.outermost name
  match p.residentType? outer with
  | some _ => return p
  | none =>
    match ← firstType? files outer p.sources with
    | some t => return { p with types := (outer, t) :: p.types }
    | none => .error (.notFound name)

/-- The type of the given name as it has become. -/
def load (files : FileTree) (p : Pool) (name : String) : Except Failure TypeDef × Pool :=
  match p.withResident files name with
  | .error cause => (.error cause, p)
  | .ok p =>
    match (p.residentType? (Name.outermost name)).bind (·.descendant? (Name.chain name)) with
    | some t => (.ok t, p)
    | none => (.error (.notFound name), p)

/-- The resident type `whole` with `t` at the end of the chain of a name, if that name leads to it.
-/
def replaceAt (name : String) (t : TypeDef) (outer : String) (whole : TypeDef) : TypeDef :=
  if outer = Name.outermost name then
    (whole.modifyDescendant? (fun _ => t) (Name.chain name)).getD whole
  else whole

/-- The pool in which `t` stands in place of the type that `load` finds under the name. -/
def put (p : Pool) (name : String) (t : TypeDef) : Pool :=
  { p with types := p.types.map fun (outer, whole) => (outer, replaceAt name t outer whole) }

/-- Writes the outermost type around the one named, and tells the path of its file. -/
def writeBack (files : FileTree) (p : Pool) (name : String) (root : OutputRoot) :
    Except Failure Path × Pool × FileTree :=
  match p.withResident files name with
  | .error cause => (.error cause, p, files)
  | .ok p =>
    match p.residentType? (Name.outermost name) with
    | none => (.error (.notFound name), p, files)
    | some t =>
      let (files, written) := root.write files t
      (written, p, files)

theorem lookup_map (f : String → TypeDef → TypeDef) (types : List (String × TypeDef))
    (key : String) :
    (types.map fun (k, t) => (k, f k t)).lookup key = (types.lookup key).map (f key) := by
  induction types with
  | nil => rfl
  | cons e rest ih =>
    obtain ⟨k, t⟩ := e
    by_cases h : key = k
    · subst h
      simp
    · simp [List.lookup_cons, beq_false_of_ne h, ih]

theorem residentType?_put (p : Pool) (name outer : String) (t : TypeDef) :
    (p.put name t).residentType? outer = (p.residentType? outer).map (replaceAt name t outer) :=
  lookup_map (replaceAt name t) p.types outer

theorem residentType?_put_of_ne (p : Pool) {name outer : String} (h : outer ≠ Name.outermost name)
    (t : TypeDef) : (p.put name t).residentType? outer = p.residentType? outer := by
  rw [residentType?_put]
  cases p.residentType? outer <;> simp [replaceAt, h]

end Pool

end Mixins
