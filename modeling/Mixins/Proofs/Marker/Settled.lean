import Mixins.Marker.Table

/-!
# Lookups with one answer

A source of types may remember what it was asked, and the table of definitions does. Neither shows
in an answer if no question changes what the source answers to another: a definition that is kept is
the one that would be found again. So a lookup has one answer, whatever was looked up before it, and
the answers to the parts of a lookup can be told one by one.

* `Steady` — a source that gives each name always the same answer.
* `Answers` — a lookup that has one answer, however many others came before it.
* `Answers.bind`, `answers_mapM`, `answers_filterM` — the answer is put together from those of the
  parts.
* `Steady.answers_ask`, `Steady.answers_definition` — the questions for types and for definitions.
-/

namespace Mixins.Marker

variable {σ α β : Type} {load : TypeSource σ} {hosts : List TypeDef} {first s : σ}

/-- Whether no question changes what the source answers to another. -/
def Steady (load : TypeSource σ) : Prop :=
  ∀ asked name s, ((load name).run ((load asked).run s).2).1 = ((load name).run s).1

/-- What the table and the source may have become: a definition that is kept is the one that would
be found at first, and the source answers as at first. -/
structure Later (load : TypeSource σ) (hosts : List TypeDef) (first : σ) (table : Table) (s : σ) :
    Prop where
  known : ∀ name t, table.known.lookup name = some t →
    (Table.ofHosts hosts).resolve name ((load name).run first).1 = .ok t
  host : table.hosts = hosts
  source : ∀ name, ((load name).run s).1 = ((load name).run first).1

theorem later_first (load : TypeSource σ) (hosts : List TypeDef) (first : σ) :
    Later load hosts first (.ofHosts hosts) first :=
  ⟨fun _ _ h => (nomatch h), rfl, fun _ => rfl⟩

theorem Later.asked {table : Table} (hsteady : Steady load) (h : Later load hosts first table s)
    (name : String) : Later load hosts first table ((load name).run s).2 :=
  ⟨h.known, h.host, fun other => (hsteady name other s).trans (h.source other)⟩

/-- The definition of a name depends on the host definitions and the answer of the source. -/
theorem Later.resolve_eq {table : Table} (h : Later load hosts first table s) (name : String) :
    table.resolve name ((load name).run s).1 =
      (Table.ofHosts hosts).resolve name ((load name).run first).1 := by
  rw [h.source]
  simp only [Table.resolve, Table.candidate, Table.host?, h.host, Table.ofHosts]

/-- A definition that was found may be kept. -/
theorem Later.keep {table : Table} (h : Later load hosts first table s) {name : String}
    {t : TypeDef} (hfound : (Table.ofHosts hosts).resolve name ((load name).run first).1 = .ok t) :
    Later load hosts first { table with known := (name, t) :: table.known } s := by
  refine ⟨fun other t' hknown => ?_, h.host, h.source⟩
  by_cases hother : other = name
  · subst hother
    rw [List.lookup_cons_self] at hknown
    rwa [← Option.some.inj hknown]
  · rw [List.lookup_cons, beq_false_of_ne hother] at hknown
    exact h.known other t' hknown

/-- Whether the lookup answers so, however many others came before it. -/
def Answers (load : TypeSource σ) (hosts : List TypeDef) (first : σ) (q : Lookup σ α) (a : α) :
    Prop :=
  ∀ table s, Later load hosts first table s →
    ((q.run table).run s).1.1 = a ∧
      Later load hosts first ((q.run table).run s).1.2 ((q.run table).run s).2

theorem answers_pure (a : α) : Answers load hosts first (pure a) a :=
  fun _ _ h => ⟨rfl, h⟩

theorem Answers.bind {q : Lookup σ α} {f : α → Lookup σ β} {a : α} {b : β}
    (hq : Answers load hosts first q a) (hf : Answers load hosts first (f a) b) :
    Answers load hosts first (q >>= f) b := by
  intro table s h
  obtain ⟨rfl, hlater⟩ := hq table s h
  exact hf _ _ hlater

theorem Answers.map {q : Lookup σ α} {a : α} (hq : Answers load hosts first q a) (f : α → β) :
    Answers load hosts first (do return f (← q)) (f a) :=
  hq.bind (answers_pure _)

theorem answers_mapM {f : α → Lookup σ β} {g : α → β}
    (hf : ∀ a, Answers load hosts first (f a) (g a)) (items : List α) :
    Answers load hosts first (items.mapM f) (items.map g) := by
  induction items with
  | nil => exact answers_pure _
  | cons a items ih =>
    rw [List.mapM_cons]
    exact (hf a).bind (ih.map _)

theorem answers_filterM {f : α → Lookup σ Bool} {g : α → Bool}
    (hf : ∀ a, Answers load hosts first (f a) (g a)) (items : List α) :
    Answers load hosts first (items.filterM f) (items.filter g) := by
  have haux : ∀ kept, Answers load hosts first (items.filterAuxM f kept)
      ((items.filter g).reverse ++ kept) := by
    induction items with
    | nil => exact fun kept => answers_pure kept
    | cons a items ih =>
      intro kept
      rw [List.filterAuxM]
      refine (hf a).bind ?_
      cases hg : g a with
      | true => simpa [hg] using ih (a :: kept)
      | false => simpa [hg] using ih kept
  have hreversed := (haux []).map List.reverse
  rw [List.append_nil, List.reverse_reverse] at hreversed
  exact hreversed

theorem Steady.answers_ask (hsteady : Steady load) (name : String) :
    Answers load hosts first (liftM (load name)) ((load name).run first).1 :=
  fun _ _ h => ⟨h.source name, h.asked hsteady name⟩

theorem run_bind (q : Lookup σ α) (f : α → Lookup σ β) (table : Table) (s : σ) :
    ((q >>= f).run table).run s =
      ((f ((q.run table).run s).1.1).run ((q.run table).run s).1.2).run ((q.run table).run s).2 :=
  rfl

/-- A definition that is not kept is looked for, and kept if it is found. -/
theorem definition_new (load : TypeSource σ) {name : String} {table : Table}
    (h : table.known.lookup name = none) (s : σ) :
    ((definition load name).run table).run s =
      let found := table.resolve name ((load name).run s).1
      let table := match found with
        | .ok t => { table with known := (name, t) :: table.known }
        | .error _ => table
      ((found, table), ((load name).run s).2) := by
  have hget : ((get : Lookup σ Table).run table).run s = ((table, table), s) := rfl
  have hload : ((liftM (load name) : Lookup σ (Except Failure TypeDef)).run table).run s =
      ((((load name).run s).1, table), ((load name).run s).2) := rfl
  rw [definition, run_bind, hget]
  dsimp only
  rw [h]
  dsimp only
  rw [run_bind, hload]
  dsimp only
  cases table.resolve name ((load name).run s).1 with
  | error cause => rfl
  | ok t => rfl

/-- A definition is found or kept, which comes to the same. -/
theorem Steady.answers_definition (hsteady : Steady load) (name : String) :
    Answers load hosts first (definition load name)
      ((Table.ofHosts hosts).resolve name ((load name).run first).1) := by
  intro table s h
  cases hknown : table.known.lookup name with
  | some t =>
    rw [definition_known load hknown]
    exact ⟨(h.known name t hknown).symm, h⟩
  | none =>
    have hasked := h.asked hsteady name
    rw [definition_new load hknown, ← h.resolve_eq name]
    cases hfound : table.resolve name ((load name).run s).1 with
    | error cause => exact ⟨rfl, hasked⟩
    | ok t => exact ⟨rfl, hasked.keep (h.resolve_eq name ▸ hfound)⟩

end Mixins.Marker
