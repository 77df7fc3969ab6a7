import Mixins.Failure

/-!
# Changing a type definition

Members are only ever added, and never twice: a field counts as the same by its name, a method by
its name and descriptor, a constructor by its descriptor. An addition tells what has become of the
type whether it succeeds or fails.

Principal statements: `addField_cases`, `addMethod_cases`, `addConstructor_cases` — an addition that
fails leaves the type as it was; one that succeeds puts the member last and changes nothing else.
-/

namespace Mixins.TypeDef

/-- Refuses a name that no member may have. -/
def checkMemberName (t : TypeDef) (name : String) : Except Failure Unit :=
  if isMemberName name then .ok ()
  else .error (.malformed (t.name ++ " member") (.memberName name))

def addMethod (t : TypeDef) (m : Method) : TypeDef × Except Failure Unit :=
  match t.checkMemberName m.name with
  | .error cause => (t, .error cause)
  | .ok () =>
    if t.methods.any (·.identity == m.identity) then
      (t, .error (.duplicateMember t.name m.identity))
    else ({ t with methods := t.methods ++ [m] }, .ok ())

def addField (t : TypeDef) (f : Field) : TypeDef × Except Failure Unit :=
  match t.checkMemberName f.name with
  | .error cause => (t, .error cause)
  | .ok () =>
    if t.hasField f.name then (t, .error (.duplicateMember t.name f.name))
    else ({ t with fields := t.fields ++ [f] }, .ok ())

def addConstructor (t : TypeDef) (c : Constructor) : TypeDef × Except Failure Unit :=
  if t.constructors.any (·.identity == c.identity) then
    (t, .error (.duplicateMember t.name c.identity))
  else ({ t with constructors := t.constructors ++ [c] }, .ok ())

theorem addMethod_cases (t : TypeDef) (m : Method) :
    (∃ cause, t.addMethod m = (t, .error cause)) ∨
      t.addMethod m = ({ t with methods := t.methods ++ [m] }, .ok ()) := by
  unfold addMethod
  cases t.checkMemberName m.name with
  | error cause => exact .inl ⟨cause, rfl⟩
  | ok _ =>
    dsimp only
    split
    · exact .inl ⟨_, rfl⟩
    · exact .inr rfl

theorem addField_cases (t : TypeDef) (f : Field) :
    (∃ cause, t.addField f = (t, .error cause)) ∨
      t.addField f = ({ t with fields := t.fields ++ [f] }, .ok ()) := by
  unfold addField
  cases t.checkMemberName f.name with
  | error cause => exact .inl ⟨cause, rfl⟩
  | ok _ =>
    dsimp only
    split
    · exact .inl ⟨_, rfl⟩
    · exact .inr rfl

theorem addConstructor_cases (t : TypeDef) (c : Constructor) :
    (∃ cause, t.addConstructor c = (t, .error cause)) ∨
      t.addConstructor c = ({ t with constructors := t.constructors ++ [c] }, .ok ()) := by
  unfold addConstructor
  split
  · exact .inl ⟨_, rfl⟩
  · exact .inr rfl

/-- The position of the nested type declared as `inner`. If there is none, an empty one of the given
kind and access is put last; the flag tells whether that happened. -/
def nestedOrInsert (t : TypeDef) (inner : String) (kind : Kind) (access : UInt16) :
    TypeDef × Nat × Bool :=
  match t.nested.findIdx? (·.innerName == inner) with
  | some i => (t, i, false)
  | none =>
    let fresh := { bare (Name.nested t.name inner) kind with access }
    ({ t with nested := t.nested ++ [fresh] }, t.nested.length, true)

mutual
/-- The type under another name; a nested type whose name follows its owner's goes with it. -/
def rename (name : String) : TypeDef → TypeDef
  | ⟨declaration, nested⟩ =>
    ⟨{ declaration with name }, renameNested declaration.name name nested⟩
def renameNested (old new : String) : List TypeDef → List TypeDef
  | [] => []
  | t :: ts =>
    let renamed := match Name.rebase t.name old new with
      | some name => t.rename name
      | none => t
    renamed :: renameNested old new ts
end

/-- The type with `inner` nested in it, under the name it was declared with. -/
def withNested (t inner : TypeDef) : TypeDef :=
  { t with nested := t.nested ++ [inner.rename (Name.nested t.name inner.innerName)] }

end Mixins.TypeDef
