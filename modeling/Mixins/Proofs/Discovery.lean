import Mixins.Discovery
import Mixins.Proofs.Module

/-!
# What discovery leaves of a classpath

Discovery puts questions to the modules, and nothing else. Whatever holds of the questions for types
and for definitions, and of lookups that are put together from others, holds of all of it. Thus what
relates a source of types before and after a question relates it before and after discovery.

* `Composes` — a property of lookups that what is put together from them has.
* `Composes.mapping` — discovery has it.
* `Reaches.composes` — a lookup changes its source only as a relation allows.
* `ask_follows` — the modules of a classpath after discovery.
-/

namespace Mixins.Discovery

open Marker (Lookup)

section Composes

variable {σ α β : Type} {load : TypeSource σ} {C : ∀ {α : Type}, Lookup σ α → Prop}

/-- A property that questions for types and for definitions have, and whatever is put together from
lookups that have it. -/
structure Composes (load : TypeSource σ) (C : ∀ {α : Type}, Lookup σ α → Prop) : Prop where
  pure : ∀ {α : Type} (a : α), C (Pure.pure a)
  bind : ∀ {α β : Type} {q : Lookup σ α} {f : α → Lookup σ β}, C q → (∀ a, C (f a)) → C (q >>= f)
  ask : ∀ name, C (liftM (load name))
  definition : ∀ name, C (Marker.definition load name)

namespace Composes

variable (h : Composes load C)

include h

/-- What is done with an answer asks nothing. -/
theorem map {q : Lookup σ α} (f : α → β) (hq : C q) : C (do return f (← q)) :=
  h.bind hq fun _ => h.pure _

theorem mapM {f : α → Lookup σ β} (hf : ∀ a, C (f a)) (items : List α) : C (items.mapM f) := by
  induction items with
  | nil => exact h.pure _
  | cons a items ih =>
    rw [List.mapM_cons]
    exact h.bind (hf a) fun _ => h.map _ ih

theorem filterM {f : α → Lookup σ Bool} (hf : ∀ a, C (f a)) (items : List α) :
    C (items.filterM f) := by
  have haux : ∀ kept, C (items.filterAuxM f kept) := by
    induction items with
    | nil => exact fun kept => h.pure kept
    | cons a items ih =>
      intro kept
      rw [List.filterAuxM]
      exact h.bind (hf a) fun _ => ih _
  exact h.map _ (haux [])

/-! ### The questions of a discovery -/

theorem read (element : TypeDef) (name : String) : C (Marker.read load element name) := by
  refine h.bind (h.definition name) fun found => ?_
  cases found with
  | error cause => exact h.pure _
  | ok t => exact h.pure _

theorem rootMarker? (settings : Settings) (package : String) :
    C (rootMarker? load settings package) := by
  refine h.bind (h.ask _) fun found => ?_
  cases found with
  | error cause => exact h.pure _
  | ok t => exact h.read _ _

theorem isLibraryPackage (settings : Settings) (package : String) :
    C (isLibraryPackage load settings package) :=
  h.map _ (h.rootMarker? settings package)

theorem libraryPackages (files : FileTree) (settings : Settings) (root : OutputRoot) :
    C (libraryPackages load files settings root) :=
  h.filterM (h.isLibraryPackage settings) _

theorem declaredMixins (settings : Settings) (package : String) :
    C (declaredMixins load settings package) :=
  h.map _ (h.rootMarker? settings package)

theorem target? (settings : Settings) (mixin : String) : C (target? load settings mixin) := by
  refine h.bind (h.ask _) fun found => ?_
  cases found with
  | error cause => exact h.pure _
  | ok t => exact h.map _ (h.read _ _)

theorem pairs (settings : Settings) (package : String) : C (pairs load settings package) := by
  refine h.bind (h.declaredMixins settings package) fun mixins => ?_
  exact h.map _ (h.mapM (fun mixin => h.map _ (h.target? settings mixin)) mixins)

/-- **Discovery is composed of questions.** -/
theorem mapping (files : FileTree) (settings : Settings) (root : OutputRoot) :
    C (mapping load files settings root) :=
  h.bind (h.libraryPackages files settings root) fun packages =>
    h.map _ (h.mapM (h.pairs settings) packages)

end Composes

/-! ## What becomes of a source -/

/-- Whether the sources of types before and after the lookup are in the relation. -/
def Respects (R : σ → σ → Prop) (q : Lookup σ α) : Prop :=
  ∀ table s, R s ((q.run table).run s).2

/-- A relation between a source of types and what it is after any number of questions. -/
structure Reaches (R : σ → σ → Prop) (load : TypeSource σ) : Prop where
  refl : ∀ s, R s s
  trans : ∀ s t u, R s t → R t u → R s u
  ask : ∀ name s, R s ((load name).run s).2

/-- **Discovery respects** what each question respects. -/
theorem Reaches.composes {R : σ → σ → Prop} (h : Reaches R load) :
    Composes load fun q => Respects R q := by
  have hpure : ∀ {α : Type} (a : α), Respects R (pure a : Lookup σ α) := fun _ _ s => h.refl s
  have hbind : ∀ {α β : Type} {q : Lookup σ α} {f : α → Lookup σ β}, Respects R q →
      (∀ a, Respects R (f a)) → Respects R (q >>= f) :=
    fun hq hf table s => h.trans _ _ _ (hq table s) (hf _ _ _)
  have hload : ∀ name, Respects R (liftM (load name) : Lookup σ (Except Failure TypeDef)) :=
    fun name _ s => h.ask name s
  refine ⟨hpure, hbind, hload, fun name => ?_⟩
  unfold Marker.definition
  refine hbind (fun _ s => h.refl s) fun table => ?_
  cases table.known.lookup name with
  | some t => exact hpure _
  | none =>
    refine hbind (hload name) fun answer => ?_
    dsimp only
    cases table.resolve name answer with
    | error cause => exact hpure _
    | ok t => exact hbind (fun _ s => h.refl s) fun _ => hpure _

end Composes

/-! ## On a classpath -/

/-- **The modules after discovery** have been asked, and nothing else. -/
theorem ask_follows (files : FileTree) (settings : Settings) (root : OutputRoot)
    (classpath : Classpath) :
    Classpath.Follows classpath
      (ask settings (mapping (source files) files settings root) classpath).2 := by
  have hreaches : Reaches Classpath.Follows (source files) :=
    ⟨Classpath.Follows.refl, fun _ _ _ => Classpath.Follows.trans,
      fun name s => Classpath.load_follows files name s⟩
  have hquestion := hreaches.composes.mapping files settings root
  generalize mapping (source files) files settings root = question at hquestion ⊢
  exact hquestion (.ofHosts (Marker.hostDefinitions settings.rootMarker settings.mixinMarker))
    classpath

end Mixins.Discovery
