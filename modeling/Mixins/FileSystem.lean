import Mixins.Path
import Mixins.Text.Utf8

/-!
# Replacing a file

A file is replaced as a whole: the content goes to a temporary file beside it, which is then moved
over it. A failure on the way leaves the old content, and perhaps the temporary file.

What the single steps do is the operating system's affair. A step that fails need not leave
everything as it was: some directories may have been created, and a file that could not be written
to its end may be cut short.

Principal statements: `FileSystem.replacement` — a replacement stops at one of its steps or is done.
-/

namespace Mixins

open Utf8 (Bytes)

/-! ## Errors -/

/-- Why the operating system refuses an operation on a path. The numbers are the system's own. -/
inductive SystemError where
  | notFound
  | busy
  | exists
  | notDirectory
  | isDirectory
  | noSpace
  | nameTooLong
  | nulInPath
  | notText
  deriving DecidableEq, Repr, Inhabited

def SystemError.message : SystemError → String
  | .notFound => "No such file or directory (os error 2)"
  | .busy => "Device or resource busy (os error 16)"
  | .exists => "File exists (os error 17)"
  | .notDirectory => "Not a directory (os error 20)"
  | .isDirectory => "Is a directory (os error 21)"
  | .noSpace => "No space left on device (os error 28)"
  | .nameTooLong => "File name too long (os error 36)"
  | .nulInPath => "file name contained an unexpected NUL byte"
  | .notText => "stream did not contain valid UTF-8"

/-- Which operation on files failed, and why. -/
inductive FileError where
  | system (cause : SystemError)
  | createDirectory (path : Path) (cause : SystemError)
  | writeTemporary (path : Path) (cause : SystemError)
  | moveIntoPlace (temporary path : Path) (cause : SystemError)
  | list (path : Path) (cause : SystemError)
  deriving DecidableEq, Repr, Inhabited

def FileError.message : FileError → String
  | .system cause => cause.message
  | .createDirectory path cause =>
    "Failed to create directory " ++ path.text ++ ": " ++ cause.message
  | .writeTemporary path cause => "Failed to write temp file " ++ path.text ++ ": " ++ cause.message
  | .moveIntoPlace temporary path cause =>
    "Failed to rename " ++ temporary.text ++ " to " ++ path.text ++ ": " ++ cause.message
  | .list path cause => "Failed to read " ++ path.text ++ ": " ++ cause.message

/-! ## Operations -/

/-- What a replacement asks of the operating system, whose files are in a state of type `σ`. An
operation leaves a state whether it succeeds or not. -/
structure FileSystem (σ : Type) where
  /-- Creates a directory and those above it, as far as they are missing. -/
  createAll : σ → Path → σ × Except SystemError Unit
  /-- Writes a file from its start, which is created if it is missing. -/
  write : σ → Path → Bytes → σ × Except SystemError Unit
  /-- Moves a file to another path, over the file that may be there. -/
  moveFile : σ → Path → Path → σ × Except SystemError Unit

namespace FileSystem

variable {σ : Type}

/-- Creates the directory that holds the path. -/
def createParents (fs : FileSystem σ) (s : σ) (path : Path) : σ × Except FileError Unit :=
  match path.parent? with
  | none => (s, .ok ())
  | some parent =>
    let (s, done) := fs.createAll s parent
    (s, done.mapError (.createDirectory parent))

/-- Replaces the file at the path as a whole, creating the directories above it. -/
def replace (fs : FileSystem σ) (s : σ) (path : Path) (content : Bytes) :
    σ × Except FileError Unit :=
  match fs.createParents s path with
  | (s, .error cause) => (s, .error cause)
  | (s, .ok ()) =>
    match fs.write s path.temporary content with
    | (s, .error cause) => (s, .error (.writeTemporary path.temporary cause))
    | (s, .ok ()) =>
      match fs.moveFile s path.temporary path with
      | (s, .error cause) => (s, .error (.moveIntoPlace path.temporary path cause))
      | (s, .ok ()) => (s, .ok ())

/-- How a replacement comes out: it stops at one of its three steps, or it is done. -/
inductive Replacement (fs : FileSystem σ) (s : σ) (path : Path) (content : Bytes) :
    σ × Except FileError Unit → Prop where
  | noDirectory {s₁ : σ} {cause : FileError}
      (create : fs.createParents s path = (s₁, .error cause)) :
      Replacement fs s path content (s₁, .error cause)
  | notWritten {s₁ s₂ : σ} {cause : SystemError} (create : fs.createParents s path = (s₁, .ok ()))
      (write : fs.write s₁ path.temporary content = (s₂, .error cause)) :
      Replacement fs s path content (s₂, .error (.writeTemporary path.temporary cause))
  | notMoved {s₁ s₂ s₃ : σ} {cause : SystemError}
      (create : fs.createParents s path = (s₁, .ok ()))
      (write : fs.write s₁ path.temporary content = (s₂, .ok ()))
      (move : fs.moveFile s₂ path.temporary path = (s₃, .error cause)) :
      Replacement fs s path content (s₃, .error (.moveIntoPlace path.temporary path cause))
  | done {s₁ s₂ s₃ : σ} (create : fs.createParents s path = (s₁, .ok ()))
      (write : fs.write s₁ path.temporary content = (s₂, .ok ()))
      (move : fs.moveFile s₂ path.temporary path = (s₃, .ok ())) :
      Replacement fs s path content (s₃, .ok ())

theorem replacement (fs : FileSystem σ) (s : σ) (path : Path) (content : Bytes) :
    fs.Replacement s path content (fs.replace s path content) := by
  unfold replace
  rcases hcreate : fs.createParents s path with ⟨s₁, cause | _⟩
  · exact .noDirectory hcreate
  · dsimp only
    rcases hwrite : fs.write s₁ path.temporary content with ⟨s₂, cause | _⟩
    · exact .notWritten hcreate hwrite
    · dsimp only
      rcases hmove : fs.moveFile s₂ path.temporary path with ⟨s₃, cause | _⟩
      · exact .notMoved hcreate hwrite hmove
      · exact .done hcreate hwrite hmove

theorem replacement_of_eq {fs : FileSystem σ} {s : σ} {path : Path} {content : Bytes}
    {result : σ × Except FileError Unit} (h : fs.replace s path content = result) :
    fs.Replacement s path content result :=
  h ▸ fs.replacement s path content

end FileSystem

end Mixins
