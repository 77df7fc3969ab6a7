import Mathlib.Data.List.Basic
import Mixins.Proofs.Marker.Settled

/-!
# Where definitions come from

A definition is the type that the source has under the name. Only where the source does not find the
name is there a host definition to fall back to, and whichever type it is, it has to be a marker
type. A table keeps what it has found, which changes nothing as long as the source answers each name
always alike.

* `IsHost`, `host?_eq_some_iff` — which host definition a name has.
* `LastResort`, `lastResort_resolve` — what is found for a name, given what the source answers.
* `mapM_definition` — the definitions of several names, looked up one after the other.
-/

namespace Mixins.Marker

variable {σ : Type} {load : TypeSource σ} {hosts : List TypeDef} {name : String} {t : TypeDef}

/-- Whether this is the host definition of the name, the last one that has it. -/
def IsHost (hosts : List TypeDef) (name : String) (t : TypeDef) : Prop :=
  t.name = name ∧ ∃ before after, hosts = before ++ t :: after ∧ ∀ other ∈ after, other.name ≠ name

theorem host?_eq_some_iff : (Table.ofHosts hosts).host? name = some t ↔ IsHost hosts name t := by
  rw [Table.host?, Table.ofHosts, List.find?_eq_some_iff_append, beq_iff_eq, IsHost]
  refine and_congr_right fun _ => ⟨?_, ?_⟩
  · rintro ⟨after, before, hsplit, hafter⟩
    refine ⟨before.reverse, after.reverse, ?_, fun other hother => ?_⟩
    · rw [← List.reverse_reverse hosts, hsplit]
      simp
    · simpa using hafter other (List.mem_reverse.1 hother)
  · rintro ⟨before, after, rfl, hafter⟩
    refine ⟨after.reverse, before.reverse, by simp, fun other hother => ?_⟩
    simpa using hafter other (List.mem_reverse.1 hother)

theorem host?_eq_none_iff :
    (Table.ofHosts hosts).host? name = none ↔ ∀ t ∈ hosts, t.name ≠ name := by
  simp [Table.host?, Table.ofHosts]

/-- The type as a definition of the name: refused unless it is a marker type. -/
def checked (name : String) (t : TypeDef) : Except Failure TypeDef :=
  if t.kind = .markerType then .ok t else .error (.malformed name (.notMarker t.kind))

theorem checked_eq_ok_iff {d : TypeDef} :
    checked name t = .ok d ↔ t = d ∧ d.kind = .markerType := by
  unfold checked
  split
  · rename_i hkind
    exact ⟨fun h => ⟨Except.ok.inj h, Except.ok.inj h ▸ hkind⟩, fun h => congrArg _ h.1⟩
  · rename_i hkind
    exact ⟨nofun, fun h => absurd (h.1 ▸ h.2) hkind⟩

/-- What may be found for a name if the source has `stored` under it. -/
structure LastResort (hosts : List TypeDef) (name : String)
    (stored found : Except Failure TypeDef) : Prop where
  kind : ∀ t, found = .ok t → t.kind = .markerType
  /-- The type that the source has is taken or refused, whatever the host definitions are. -/
  ofStored : ∀ t, stored = .ok t → found = checked name t
  /-- Another failure of the source is not covered up. -/
  ofFailure : ∀ cause, stored = .error cause → cause.isNotFound = false → found = .error cause
  ofHost : ∀ cause t, stored = .error cause → cause.isNotFound = true → IsHost hosts name t →
    found = checked name t
  ofNone : ∀ cause, stored = .error cause → cause.isNotFound = true →
    (∀ t ∈ hosts, t.name ≠ name) → found = .error (.notFound name)

theorem lastResort_resolve (hosts : List TypeDef) (name : String)
    (stored : Except Failure TypeDef) :
    LastResort hosts name stored ((Table.ofHosts hosts).resolve name stored) where
  kind _ h := Table.resolve_ok_kind h
  ofStored := by
    rintro t rfl
    rfl
  ofFailure := by
    rintro cause rfl hother
    simp [Table.resolve, Table.candidate, hother]
  ofHost := by
    rintro cause t rfl hnotFound hhost
    simp [Table.resolve, Table.candidate, hnotFound, host?_eq_some_iff.2 hhost, checked]
  ofNone := by
    rintro cause rfl hnotFound hnone
    simp [Table.resolve, Table.candidate, hnotFound, host?_eq_none_iff.2 hnone]

/-- A definition that is no type of the source's is the host definition of its name, and the source
has none. -/
theorem LastResort.origin {stored found : Except Failure TypeDef}
    (h : LastResort hosts name stored found) {d : TypeDef} (hfound : found = .ok d) :
    stored = .ok d ∨
      (∃ cause, stored = .error cause ∧ cause.isNotFound = true) ∧ IsHost hosts name d := by
  cases stored with
  | ok t => exact .inl (congrArg _ (checked_eq_ok_iff.1 ((h.ofStored t rfl).symm.trans hfound)).1)
  | error cause =>
    cases hnotFound : cause.isNotFound with
    | false => cases (h.ofFailure cause rfl hnotFound).symm.trans hfound
    | true =>
      refine .inr ⟨⟨cause, rfl, hnotFound⟩, ?_⟩
      cases hhost : (Table.ofHosts hosts).host? name with
      | none => cases (h.ofNone cause rfl hnotFound (host?_eq_none_iff.1 hhost)).symm.trans hfound
      | some t =>
        have ht := host?_eq_some_iff.1 hhost
        have hchecked := (h.ofHost cause t rfl hnotFound ht).symm.trans hfound
        exact (checked_eq_ok_iff.1 hchecked).1 ▸ ht

/-- **Host definitions are a last resort**, whatever was asked before. If the source answers each
name always alike, each of several lookups finds what a new table would find. That is the type that
the source has under the name; the host definition, if the source does not find the name; and in
either case a marker type. Any other failure of the source stays as it is. -/
theorem mapM_definition (hsteady : Steady load) (hosts : List TypeDef) (first : σ)
    (names : List String) :
    let stored := fun name => ((load name).run first).1
    let fresh := fun name => (((definition load name).run (.ofHosts hosts)).run first).1.1
    (((names.mapM (definition load)).run (.ofHosts hosts)).run first).1.1 = names.map fresh ∧
      ∀ name, LastResort hosts name (stored name) (fresh name) ∧
        ∀ d, fresh name = .ok d → stored name = .ok d ∨
          (∃ cause, stored name = .error cause ∧ cause.isNotFound = true) ∧
            IsHost hosts name d := by
  intro stored fresh
  have hfresh : ∀ name, fresh name = (Table.ofHosts hosts).resolve name (stored name) :=
    fun name => (hsteady.answers_definition name _ _ (later_first load hosts first)).1
  refine ⟨?_, fun name => ?_⟩
  · rw [List.map_congr_left fun name _ => hfresh name]
    exact (answers_mapM hsteady.answers_definition names _ _ (later_first load hosts first)).1
  · have hresort := hfresh name ▸ lastResort_resolve hosts name (stored name)
    exact ⟨hresort, fun d => hresort.origin⟩

/-- A source that takes down what it is asked for. It has a marker type `m.A` and a class `m.B`, and
cannot read `m.C`. -/
def recorded : TypeSource (List String) := fun name asked =>
  let answer := match name with
    | "m.A" => .ok (.bare "m.A" .markerType)
    | "m.B" => .ok (.bare "m.B" .classType)
    | "m.C" => .error (.malformed "m.C" (.notMarker .enumType))
    | _ => .error (.notFound name)
  (answer, name :: asked)

/-- Host definitions, two of them of one name and three of names that the source knows. -/
def recordedHosts : List TypeDef :=
  [.bare "m.A" .markerType, .bare "m.B" .markerType, .bare "m.C" .markerType,
    .bare "m.H" .classType, { TypeDef.bare "m.H" .markerType with access := 0 }]

/-- Names that the source knows, and names that it does not, each asked for more than once. -/
theorem mapM_definition_recorded :
    let host := { TypeDef.bare "m.H" .markerType with access := 0 }
    Steady recorded ∧
      ((((["m.H", "m.B", "m.C", "m.A", "m.H", "m.X", "m.C"].mapM (definition recorded)).run
          (.ofHosts recordedHosts)).run []).1.1 =
        [.ok host, .error (.malformed "m.B" (.notMarker .classType)),
          .error (.malformed "m.C" (.notMarker .enumType)), .ok (.bare "m.A" .markerType),
          .ok host, .error (.notFound "m.X"), .error (.malformed "m.C" (.notMarker .enumType))] ∧
        IsHost recordedHosts "m.H" host) := by
  intro host
  have hsteady : Steady recorded := fun _ _ _ => rfl
  obtain ⟨hanswers, hresort⟩ := mapM_definition hsteady recordedHosts []
    ["m.H", "m.B", "m.C", "m.A", "m.H", "m.X", "m.C"]
  have hhost := (hresort "m.H").2 host (by decide +kernel)
  refine ⟨hsteady, ?_, ?_⟩
  · rw [hanswers]
    decide +kernel
  · exact (hhost.resolve_left (by decide +kernel)).2

end Mixins.Marker
