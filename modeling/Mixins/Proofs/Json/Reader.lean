import Mathlib.Data.List.Nodup
import Mixins.Json.Reader

/-!
# Readers invert writers within the depth

A reader is given the levels that may still be nested. What it makes of a document is therefore
said for every number of levels: the document `Spells` a value if the reader gives that value where
the document is not nested deeper, and nothing otherwise. A reader inverts a writer if every written
document spells the value it was written for.

* `inverts_list`, `inverts_entries`, `optionalField?_ofOption` — lists, maps and optional fields.
* `record?_ofMembers`, `spells_record` — the fields of a record are found in the members it was
  written to, and the record takes one level.
-/

namespace Mixins.Json

/-- Whether the reader finds the value in the document, if it is not nested deeper than it may be,
and nothing otherwise. -/
def Spells {α : Type} (read? : Reader α) (j : Json) (a : α) : Prop :=
  ∀ depth, read? depth j = if j.depth ≤ depth then some a else none

def Inverts {α : Type} (read? : Reader α) (write : α → Json) : Prop :=
  ∀ a, Spells read? (write a) a

variable {α β : Type}

/-! ## Depth -/

theorem depthItems_le {items : List Json} {depth : Nat} :
    depthItems items ≤ depth ↔ ∀ item ∈ items, item.depth ≤ depth := by
  induction items with
  | nil => simp [depthItems]
  | cons item items ih => rw [depthItems, Nat.max_le, ih, List.forall_mem_cons]

theorem depthMembers_le {members : List (Option String × Json)} {depth : Nat} :
    depthMembers members ≤ depth ↔ ∀ m ∈ members, m.2.depth ≤ depth := by
  induction members with
  | nil => simp [depthMembers]
  | cons m members ih => rw [depthMembers, Nat.max_le, ih, List.forall_mem_cons]

theorem depth_arr_le {items : List Json} {depth : Nat} :
    (arr items).depth ≤ depth + 1 ↔ ∀ item ∈ items, item.depth ≤ depth := by
  rw [Json.depth, Nat.add_comm 1, Nat.add_le_add_iff_right, depthItems_le]

theorem depth_ofMembers_le {members : List (String × Json)} {depth : Nat} :
    (ofMembers members).depth ≤ depth + 1 ↔ ∀ m ∈ members, m.2.depth ≤ depth := by
  rw [ofMembers, Json.depth, Nat.add_comm 1, Nat.add_le_add_iff_right, depthMembers_le,
    List.forall_mem_map]

theorem not_depth_arr_le_zero (items : List Json) : ¬ (arr items).depth ≤ 0 := by
  rw [Json.depth]
  omega

theorem not_depth_ofMembers_le_zero (members : List (String × Json)) :
    ¬ (ofMembers members).depth ≤ 0 := by
  rw [ofMembers, Json.depth]
  omega

/-! ## Readers -/

/-- What is read after something that fits is read if that fits. -/
theorem bind_fits {c : Prop} [Decidable c] {a : α} {f : α → Option β} :
    (if c then some a else none).bind f = if c then f a else none := by
  split <;> rfl

theorem map_fits {c : Prop} [Decidable c] {a : α} {f : α → β} :
    (if c then some a else none).map f = if c then some (f a) else none := by
  split <;> rfl

theorem mapM_fits {γ : Type} {f : β → Option α} {w : γ → β} {g : γ → α} {p : γ → Prop}
    [DecidablePred p] {cs : List γ}
    (h : ∀ c ∈ cs, f (w c) = if p c then some (g c) else none) :
    (cs.map w).mapM f = if ∀ c ∈ cs, p c then some (cs.map g) else none := by
  induction cs with
  | nil => rfl
  | cons c cs ih =>
    have hc := h c List.mem_cons_self
    have hcs := ih fun c hc => h c (List.mem_cons_of_mem _ hc)
    simp only [List.map_cons, List.mapM_cons, hc, hcs, Option.bind_eq_bind, bind_fits,
      Option.pure_def, ← ite_and, List.forall_mem_cons]

theorem inverts_list {item? : Reader α} {write : α → Json} (h : Inverts item? write) :
    Inverts (list? item?) fun as => .arr (as.map write) := by
  rintro as (_ | depth)
  · rw [if_neg (not_depth_arr_le_zero _)]
    rfl
  · simp only [list?, mapM_fits fun a _ => h a depth, List.map_id', depth_arr_le,
      List.forall_mem_map]

theorem optionalField?_ofOption {read? : Reader α} {write : α → Json} (h : Inverts read? write)
    (hnull : ∀ a, write a ≠ .null) (depth : Nat) (o : Option α) :
    optionalField? read? depth (some (ofOption write o))
      = if (ofOption write o).depth ≤ depth then some o else none := by
  cases o with
  | none => rfl
  | some a =>
    rw [optionalField?, ofOption, optional?.eq_2 _ _ _ (hnull a), h, map_fits]

/-- A field is found under its name, where each name occurs once. -/
theorem field?_of_mem {members : List (String × Json)} (hnodup : (members.map (·.1)).Nodup)
    {m : String × Json} (hm : m ∈ members) :
    field? (members.map fun (key, value) => (some key, value)) m.1 = some (some m.2) := by
  have honly : members.filter (fun m' => decide (m'.1 = m.1)) = [m] := by
    induction members with
    | nil => exact nomatch hm
    | cons first members ih =>
      rw [List.map_cons, List.nodup_cons] at hnodup
      rcases List.mem_cons.1 hm with rfl | hm
      · have hnone : members.filter (fun m' => decide (m'.1 = m.1)) = [] := by
          refine List.filter_eq_nil_iff.2 fun m' hm' heq => hnodup.1 ?_
          exact of_decide_eq_true heq ▸ List.mem_map_of_mem hm'
        rw [List.filter_cons_of_pos (by simp), hnone]
      · have hne : first.1 ≠ m.1 := fun heq => hnodup.1 (heq ▸ List.mem_map_of_mem hm)
        rw [List.filter_cons_of_neg (by simpa using hne), ih hnodup.2 hm]
  simp [field?, List.filter_map, Function.comp_def, honly]

/-- **A record is found** in the members it was written to. -/
theorem record?_ofMembers {members : List (String × Json)}
    (hnodup : (members.map (·.1)).Nodup) (least depth : Nat) :
    record? (members.map (·.1)) least (depth + 1) (ofMembers members)
      = some (depth, members.map (some ·.2)) := by
  have hfields := mapM_fits (w := (·.1)) (g := (some ·.2)) (p := fun _ => True)
    fun m hm => field?_of_mem hnodup hm
  rw [if_pos fun _ _ => trivial] at hfields
  simp [record?, ofMembers, hfields]

/-- A record takes a level, and its fields what is left. -/
theorem spells_record {read? : Reader α} {members : List (String × Json)} {a : α}
    (hzero : read? 0 (ofMembers members) = none)
    (hsucc : ∀ depth, read? (depth + 1) (ofMembers members)
      = if ∀ m ∈ members, m.2.depth ≤ depth then some a else none) :
    Spells read? (ofMembers members) a := by
  rintro (_ | depth)
  · rw [if_neg (not_depth_ofMembers_le_zero _), hzero]
  · simp only [depth_ofMembers_le, hsucc]

/-- A variant takes a level, and its content what is left. -/
theorem spells_variant {read? : Reader α} {content? : Reader β} {key : String} {j : Json} {b : β}
    {f : β → α} (hcontent : Spells content? j b) (hzero : read? 0 (ofMembers [(key, j)]) = none)
    (hsucc : ∀ depth, read? (depth + 1) (ofMembers [(key, j)]) = (content? depth j).map f) :
    Spells read? (ofMembers [(key, j)]) (f b) := by
  refine spells_record hzero fun depth => ?_
  simp [hsucc, hcontent depth]

/-- What is not nested is read whatever the depth. -/
theorem spells_leaf {f : Json → Option α} {j : Json} {a : α} (hdepth : j.depth = 0)
    (h : f j = some a) : Spells (fun _ => f) j a := by
  intro depth
  rw [hdepth, if_pos (Nat.zero_le _)]
  exact h

theorem inverts_entries {value? : Reader α} {write : α → Json} (h : Inverts value? write) :
    Inverts (entries? value?) fun entries =>
      ofMembers (entries.map fun (name, a) => (name, write a)) := by
  refine fun entries => spells_record rfl fun depth => ?_
  simp only [entries?, ofMembers, List.map_map, List.forall_mem_map]
  refine (mapM_fits (g := id) (p := fun e => (write e.2).depth ≤ depth) fun e _ => ?_).trans ?_
  · simp [h e.2 depth, bind_fits]
  · rw [List.map_id]

end Mixins.Json
