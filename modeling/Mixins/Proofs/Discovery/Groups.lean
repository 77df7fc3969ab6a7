import Mixins.Proofs.Discovery
import Mixins.Proofs.Mapping
import Mixins.Proofs.Marker.Settled
import Mixins.Proofs.Module.Later

/-!
# The mapping as groups of pairs

No question changes what a classpath answers to another, so every question of a discovery is
answered as it is when it comes first. The packages, the mixins of each of them and the target of
each mixin can be asked for one by one, and the mapping that discovery makes is what the answers
come to: the pairs of a target and a mixin, grouped by target.

* `composes_settled` — every question of a discovery has one answer.
* `answer_libraryPackages`, `answer_pairs`, `answer_mapping` — the answers to questions that are put
  together from others.
* `mapping_groups` — discovery loses no pair, invents none and keeps their order.
-/

namespace Mixins.Discovery

open Marker (Lookup Answers Steady)

theorem steady_source (files : FileTree) : Steady (source files) :=
  fun asked name classpath => Classpath.load_later files asked name classpath

/-- What a classpath answers to a question that comes before all others. -/
def answer {α : Type} (settings : Settings) (classpath : Classpath)
    (question : Lookup Classpath α) : α :=
  (ask settings question classpath).1

section Settled

variable {α : Type} (files : FileTree) (settings : Settings) (root : OutputRoot)
  (classpath : Classpath)

/-- Whether a question to the classpath has this answer, however many others came before it. -/
def Settled (question : Lookup Classpath α) (a : α) : Prop :=
  Answers (source files) (Marker.hostDefinitions settings.rootMarker settings.mixinMarker)
    classpath question a

variable {files settings classpath}

theorem Settled.answer_eq {question : Lookup Classpath α} {a : α}
    (h : Settled files settings classpath question a) : answer settings classpath question = a :=
  (h _ _ (Marker.later_first _ _ _)).1

variable (files settings classpath)

/-- **Every question of a discovery has one answer**: the one that it has when it comes first. -/
theorem composes_settled : Composes (source files) fun question =>
    Settled files settings classpath question (answer settings classpath question) := by
  have hsettled : ∀ {α : Type} {question : Lookup Classpath α} {a : α},
      Settled files settings classpath question a →
      Settled files settings classpath question (answer settings classpath question) := by
    intro α question a ha
    rwa [ha.answer_eq]
  exact {
    pure := fun a => hsettled (Marker.answers_pure a)
    bind := fun hq hf => hsettled (hq.bind (hf _))
    ask := fun name => hsettled ((steady_source files).answers_ask name)
    definition := fun name => hsettled ((steady_source files).answers_definition name) }

/-- The library packages are the packages that are library packages when asked first. -/
theorem answer_libraryPackages :
    answer settings classpath (libraryPackages (source files) files settings root) =
      (packages files settings root).filter fun package =>
        answer settings classpath (isLibraryPackage (source files) settings package) := by
  have hcomposes := composes_settled files settings classpath
  refine (?_ : Settled files settings classpath _ _).answer_eq
  exact Marker.answers_filterM (hcomposes.isLibraryPackage settings) _

/-- The pairs of a package are the mixins that it declares, each with the target that it names. -/
theorem answer_pairs (package : String) :
    answer settings classpath (pairs (source files) settings package) =
      (answer settings classpath (declaredMixins (source files) settings package)).filterMap
        fun mixin =>
          (answer settings classpath (target? (source files) settings mixin)).map (·, mixin) := by
  have hcomposes := composes_settled files settings classpath
  refine (?_ : Settled files settings classpath _ _).answer_eq
  have hfound := Marker.answers_mapM (fun mixin =>
    (hcomposes.target? settings mixin).map fun target => target.map (·, mixin))
    (answer settings classpath (declaredMixins (source files) settings package))
  have hpairs := hfound.map (·.filterMap id)
  rw [List.filterMap_map] at hpairs
  exact Answers.bind (hcomposes.declaredMixins settings package) hpairs

/-- The pairs of a target and a mixin: package by package, as each declares its mixins. A mixin
without a target is passed over. -/
def foundPairs : List (String × String) :=
  (answer settings classpath (libraryPackages (source files) files settings root)).flatMap
    fun package =>
      (answer settings classpath (declaredMixins (source files) settings package)).filterMap
        fun mixin =>
          (answer settings classpath (target? (source files) settings mixin)).map (·, mixin)

theorem answer_mapping :
    answer settings classpath (mapping (source files) files settings root) =
      Mapping.ofPairs (foundPairs files settings root classpath) := by
  have hcomposes := composes_settled files settings classpath
  refine (?_ : Settled files settings classpath _ _).answer_eq
  have hpairs := (Marker.answers_mapM (hcomposes.pairs settings)
    (answer settings classpath (libraryPackages (source files) files settings root))).map
    fun found => Mapping.ofPairs found.flatten
  simp only [answer_pairs] at hpairs
  exact Answers.bind (hcomposes.libraryPackages files settings root) hpairs

/-- **Discovery loses no pair and invents none.** Its mapping is the pairs in groups: each target
once, in the order in which the targets are first met, and with it the mixins that are met with that
target, in order and as often as they are. -/
theorem mapping_groups :
    let mapping := answer settings classpath (mapping (source files) files settings root)
    let pairs := foundPairs files settings root classpath
    mapping.targets.Nodup ∧
      mapping = (pairs.map (·.1)).eraseDups.map fun target =>
        (target, (pairs.filter (·.1 = target)).map (·.2)) := by
  intro mapping pairs
  have hmapping : mapping = Mapping.ofPairs pairs := answer_mapping files settings root classpath
  rw [hmapping]
  exact ⟨Mapping.targets_ofPairs pairs, Mapping.ofPairs_eq pairs⟩

end Settled

end Mixins.Discovery
