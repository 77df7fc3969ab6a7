import Mixins.Proofs.Merge.Extension

/-!
# Slots

What a type declares is addressed by slots: each type has one for itself, one for each name of a
method or field, and one for each descriptor of a constructor. Members that a merge takes for the
same fill one slot; overloads of a method share theirs. A slot of a nested type is reached by the
path of declared names that leads to that type.

* `Declares` — whether a type has a slot at the end of a path.
* `declares_iff` — only what is declared at the end of the path matters.
* `Extends.declares` — an extension declares whatever the type declares.
-/

namespace Mixins

inductive Slot where
  | self
  | method (name : String)
  | field (name : String)
  | initializer (descriptor : String)
  deriving DecidableEq

/-- The slots that the declaration fills. -/
def Declaration.slots (d : Declaration) : List Slot :=
  .self :: (d.methods.map (fun m => .method m.name) ++ d.fields.map (fun f => .field f.name) ++
    d.constructors.map fun c => .initializer c.signature.descriptor)

namespace Declaration

variable {d d' : Declaration}

theorem self_mem_slots (d : Declaration) : .self ∈ d.slots := List.mem_cons_self

theorem method_mem_slots {name : String} :
    .method name ∈ d.slots ↔ name ∈ d.methods.map (·.name) := by
  simp [slots]

theorem field_mem_slots {name : String} :
    .field name ∈ d.slots ↔ name ∈ d.fields.map (·.name) := by
  simp [slots]

theorem initializer_mem_slots {descriptor : String} :
    .initializer descriptor ∈ d.slots ↔
      descriptor ∈ d.constructors.map (·.signature.descriptor) := by
  simp [slots]

theorem Extends.slots_subset (h : d.Extends d') : d.slots ⊆ d'.slots := by
  intro slot hslot
  cases slot with
  | self => exact d'.self_mem_slots
  | method name =>
    rw [method_mem_slots] at hslot ⊢
    exact (h.methods.map _).subset hslot
  | field name =>
    rw [field_mem_slots] at hslot ⊢
    exact (h.fields.map _).subset hslot
  | initializer descriptor =>
    rw [initializer_mem_slots] at hslot ⊢
    exact (h.constructors.map _).subset hslot

end Declaration

namespace TypeDef

/-- Whether a type lies at the end of the path and has the slot. -/
def Declares (t : TypeDef) (path : List String) (slot : Slot) : Prop :=
  ∃ x, t.descendant? path = some x ∧ slot ∈ x.slots

instance (t : TypeDef) (path : List String) (slot : Slot) : Decidable (t.Declares path slot) :=
  match h : t.descendant? path with
  | some x => decidable_of_iff (slot ∈ x.slots) (by simp [Declares, h])
  | none => isFalse (by simp [Declares, h])

variable {t t' n : TypeDef} {path : List String} {slot : Slot}

theorem declares_nil : t.Declares [] slot ↔ slot ∈ t.slots := by
  simp [Declares, descendant?]

theorem declares_self : t.Declares path .self ↔ (t.descendant? path).isSome := by
  simp [Declares, Declaration.self_mem_slots, Option.isSome_iff_exists]

theorem declares_iff : t.Declares path slot ↔
    ∃ d, (t.descendant? path).map (·.toDeclaration) = some d ∧ slot ∈ d.slots := by
  simp [Declares]

/-! ## Slots of an extension -/

theorem Extends.innerName (h : t.Extends t') : t'.innerName = t.innerName := by
  rw [TypeDef.innerName, TypeDef.innerName, h.name]

/-- The nested type that is found first is found first in an extension as well. -/
theorem Extends.nestedType? {inner : String} (h : t.Extends t')
    (hn : t.nestedType? inner = some n) : ∃ n', t'.nestedType? inner = some n' ∧ n.Extends n' := by
  obtain ⟨hinner, i, hi, rfl, hbefore⟩ := List.find?_eq_some_iff_getElem.1 hn
  cases h with
  | intro _ hlen hnested =>
    have hi' := Nat.lt_of_lt_of_le hi hlen
    have hext := hnested i hi hi'
    refine ⟨t'.nested[i], ?_, hext⟩
    refine List.find?_eq_some_iff_getElem.2 ⟨?_, i, hi', rfl, fun j hj => ?_⟩
    · rw [hext.innerName]
      exact hinner
    · rw [(hnested j (Nat.lt_trans hj hi) (Nat.lt_trans hj hi')).innerName]
      exact hbefore j hj

theorem Extends.descendant? {x : TypeDef} (h : t.Extends t') (hx : t.descendant? path = some x) :
    ∃ x', t'.descendant? path = some x' ∧ x.Extends x' := by
  induction path generalizing t t' with
  | nil =>
    rw [TypeDef.descendant?, Option.some.injEq] at hx
    exact ⟨t', rfl, hx ▸ h⟩
  | cons inner path ih =>
    rw [TypeDef.descendant?, Option.bind_eq_some_iff] at hx
    obtain ⟨n, hn, hx⟩ := hx
    obtain ⟨n', hn', hext⟩ := h.nestedType? hn
    obtain ⟨x', hx', hext'⟩ := ih hext hx
    exact ⟨x', by rw [TypeDef.descendant?, hn', Option.bind_some, hx'], hext'⟩

theorem Extends.declares (h : t.Extends t') (hslot : t.Declares path slot) :
    t'.Declares path slot := by
  obtain ⟨x, hx, hslot⟩ := hslot
  obtain ⟨x', hx', hext⟩ := h.descendant? hx
  exact ⟨x', hx', hext.declaration.slots_subset hslot⟩

end TypeDef

end Mixins
