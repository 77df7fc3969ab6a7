import Mixins.Module
import Mixins.FileTree.Listing
import Mixins.Mapping
import Mixins.Marker.Table
import Mixins.OutputRoot
import Mixins.Settings

/-!
# Discovering mixins

The library packages are directories below the namespace directory of the output root whose package
descriptor carries the root marker. The marker lists the mixins of the package, and each mixin names
its target by the mixin marker.

Every question is put to a source of types, in the order of the walk through the packages.
-/

namespace Mixins.Discovery

open Marker (Lookup)

variable {σ : Type}

/-- The root marker of a package's descriptor, if the package has both. -/
def rootMarker? (load : TypeSource σ) (settings : Settings) (package : String) :
    Lookup σ (Option Marker.Reading) := do
  match ← load (Name.packageInfoOf package) with
  | .error _ => return none
  | .ok descriptor => Marker.read load descriptor settings.rootMarker

def isLibraryPackage (load : TypeSource σ) (settings : Settings) (package : String) :
    Lookup σ Bool := do
  return (← rootMarker? load settings package).isSome

/-- The packages of the namespace, in the order of a walk through its directory. -/
def packages (files : FileTree) (settings : Settings) (root : OutputRoot) : List String :=
  let start := root.namespaceDir settings.namespaceName
  (files.directories start).filterMap (Layout.packageOf root.dir)

def libraryPackages (load : TypeSource σ) (files : FileTree) (settings : Settings)
    (root : OutputRoot) : Lookup σ (List String) :=
  (packages files settings root).filterM (isLibraryPackage load settings)

/-- The mixins that a package lists. -/
def declaredMixins (load : TypeSource σ) (settings : Settings) (package : String) :
    Lookup σ (List String) := do
  let marker ← rootMarker? load settings package
  let mixins := marker.bind fun r =>
    r.property? Marker.mixinsProperty (Marker.Value.list? Marker.Value.typeRef?)
  return mixins.getD []

/-- The target that a mixin names. -/
def target? (load : TypeSource σ) (settings : Settings) (mixin : String) :
    Lookup σ (Option String) := do
  match ← load mixin with
  | .error _ => return none
  | .ok t =>
    let marker ← Marker.read load t settings.mixinMarker
    return marker.bind (·.property? Marker.targetProperty Marker.Value.typeRef?)

/-- The mixins of a package with their targets; one without a target is passed over. -/
def pairs (load : TypeSource σ) (settings : Settings) (package : String) :
    Lookup σ (List (String × String)) := do
  let mixins ← declaredMixins load settings package
  let found ← mixins.mapM fun mixin => do
    return (← target? load settings mixin).map fun target => (target, mixin)
  return found.filterMap id

/-- All mixins by target. -/
def mapping (load : TypeSource σ) (files : FileTree) (settings : Settings) (root : OutputRoot) :
    Lookup σ Mapping := do
  let packages ← libraryPackages load files settings root
  return Mapping.ofPairs (← packages.mapM (pairs load settings)).flatten

/-- The source of types that a classpath is. -/
def source (files : FileTree) : TypeSource Classpath := fun name => Classpath.load files name

/-- Answers a question from a classpath, with the host definitions of the settings' markers. -/
def ask {α : Type} (settings : Settings) (question : Lookup Classpath α) (classpath : Classpath) :
    α × Classpath :=
  let hosts := Marker.hostDefinitions settings.rootMarker settings.mixinMarker
  let ((answer, _), classpath) := (question.run (.ofHosts hosts)).run classpath
  (answer, classpath)

end Mixins.Discovery
