import Mixins.Discovery
import Mixins.Merge.Target
import Mixins.Variant

/-!
# A run

Discovers the mixins of all library packages, merges them into their targets, and unites the types
of which every module may have a part. Targets share one pool; unions ask the modules.
-/

namespace Mixins.Run

/-- Merges the mixins of each target, in the order of the mapping. -/
def mergeTargets (settings : Settings) (root : OutputRoot) :
    Mapping → Pool → FileTree → List TargetReport × Pool × FileTree
  | [], pool, files => ([], pool, files)
  | (target, mixins) :: rest, pool, files =>
    let (report, pool, files) :=
      Merge.mergeMixins settings.stringTypes root target mixins pool files
    let (reports, pool, files) := mergeTargets settings root rest pool files
    (report :: reports, pool, files)

/-- Unites each of the types, in order. -/
def uniteTypes (settings : Settings) (root : OutputRoot) :
    List String → Classpath → FileTree → List UnionReport × Classpath × FileTree
  | [], classpath, files => ([], classpath, files)
  | name :: rest, classpath, files =>
    let (report, classpath, files) :=
      Variant.writeUnion settings.stringTypes root name classpath files
    let (reports, classpath, files) := uniteTypes settings root rest classpath files
    (report :: reports, classpath, files)

/-- All mixins of the library packages by target. -/
def discover (settings : Settings) (root : OutputRoot) (classpath : Classpath) (files : FileTree) :
    Mapping × Classpath :=
  Discovery.ask settings (Discovery.mapping (Discovery.source files) files settings root) classpath

def run (settings : Settings) (root : OutputRoot) (classpath : Classpath) (files : FileTree) :
    Report × FileTree :=
  let (mapping, classpath) := discover settings root classpath files
  let (targets, _, files) :=
    mergeTargets settings root mapping (.ofSources classpath.sources) files
  let (unions, _, files) := uniteTypes settings root settings.unions classpath files
  (⟨mapping, targets, unions⟩, files)

end Mixins.Run
