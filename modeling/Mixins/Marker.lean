/-!
# Markers

A marker is attached to a type. It names its marker type and gives values to some of the properties
that the marker type declares. The properties of a marker form a map, kept in the order of their
names.

Principal statements: `Properties.get?_insert_self`, `Properties.get?_insert_of_ne` — an insertion
is seen under its own name and under no other.
-/

namespace Mixins

inductive Marker.Value where
  | bool (b : Bool)
  | int (n : Int64)
  | str (s : String)
  | typeRef (name : String)
  | array (items : List Marker.Value)
  deriving Repr, Inhabited

namespace Marker.Value

mutual
def decEq : ∀ a b : Value, Decidable (a = b)
  | .bool a, .bool b => decidable_of_iff (a = b) (by simp)
  | .int a, .int b => decidable_of_iff (a = b) (by simp)
  | .str a, .str b => decidable_of_iff (a = b) (by simp)
  | .typeRef a, .typeRef b => decidable_of_iff (a = b) (by simp)
  | .array a, .array b =>
    match listDecEq a b with
    | isTrue h => isTrue (congrArg _ h)
    | isFalse h => isFalse fun heq => h (Value.array.inj heq)
  | .bool _, .int _ | .bool _, .str _ | .bool _, .typeRef _ | .bool _, .array _
  | .int _, .bool _ | .int _, .str _ | .int _, .typeRef _ | .int _, .array _
  | .str _, .bool _ | .str _, .int _ | .str _, .typeRef _ | .str _, .array _
  | .typeRef _, .bool _ | .typeRef _, .int _ | .typeRef _, .str _ | .typeRef _, .array _
  | .array _, .bool _ | .array _, .int _ | .array _, .str _ | .array _, .typeRef _ =>
    isFalse (by simp)
def listDecEq : ∀ as bs : List Value, Decidable (as = bs)
  | [], [] => isTrue rfl
  | [], _ :: _ | _ :: _, [] => isFalse (by simp)
  | a :: as, b :: bs =>
    match decEq a b, listDecEq as bs with
    | isTrue h, isTrue hs => isTrue (by rw [h, hs])
    | isFalse h, _ => isFalse fun heq => h (List.cons.inj heq).1
    | _, isFalse hs => isFalse fun heq => hs (List.cons.inj heq).2
end

instance : DecidableEq Value := decEq

def kindName : Value → String
  | .bool _ => "bool"
  | .int _ => "int"
  | .str _ => "string"
  | .typeRef _ => "type"
  | .array _ => "array"

/-! ## Reading a value in an expected shape -/

def bool? : Value → Option Bool
  | .bool b => some b
  | _ => none

def int? : Value → Option Int64
  | .int n => some n
  | _ => none

def str? : Value → Option String
  | .str s => some s
  | _ => none

def typeRef? : Value → Option String
  | .typeRef name => some name
  | _ => none

/-- The items of an array, if each of them has the shape that `item?` reads. -/
def list? {α : Type} (item? : Value → Option α) : Value → Option (List α)
  | .array items => items.mapM item?
  | _ => none

end Marker.Value

/-- Properties by name, in increasing order of their names. -/
structure Properties where
  entries : List (String × Marker.Value)
  sorted : entries.Pairwise (·.1 < ·.1)
  deriving DecidableEq

namespace Properties

def empty : Properties := ⟨[], .nil⟩

instance : Inhabited Properties := ⟨empty⟩

def get? (p : Properties) (name : String) : Option Marker.Value := p.entries.lookup name

def insertEntry (name : String) (value : Marker.Value) :
    List (String × Marker.Value) → List (String × Marker.Value)
  | [] => [(name, value)]
  | (key, old) :: rest =>
    if name < key then (name, value) :: (key, old) :: rest
    else if name = key then (name, value) :: rest
    else (key, old) :: insertEntry name value rest

theorem mem_insertEntry {name : String} {value : Marker.Value}
    {entries : List (String × Marker.Value)} {e : String × Marker.Value}
    (h : e ∈ insertEntry name value entries) : e = (name, value) ∨ e ∈ entries := by
  induction entries with
  | nil => simpa [insertEntry] using h
  | cons first rest ih =>
    obtain ⟨key, old⟩ := first
    simp only [insertEntry] at h
    split at h
    · simpa using h
    · split at h
      · simp only [List.mem_cons] at h ⊢
        rcases h with h | h <;> simp [h]
      · simp only [List.mem_cons] at h ⊢
        rcases h with h | h
        · exact .inr (.inl h)
        · rcases ih h with h | h <;> simp [h]

theorem sorted_insertEntry (name : String) (value : Marker.Value)
    {entries : List (String × Marker.Value)} (h : entries.Pairwise (·.1 < ·.1)) :
    (insertEntry name value entries).Pairwise (·.1 < ·.1) := by
  induction entries with
  | nil => simp [insertEntry]
  | cons first rest ih =>
    obtain ⟨key, old⟩ := first
    obtain ⟨hall, hrest⟩ := List.pairwise_cons.1 h
    simp only [insertEntry]
    split
    · rename_i hlt
      refine List.pairwise_cons.2 ⟨fun e he => ?_, h⟩
      rcases List.mem_cons.1 he with rfl | he
      · exact hlt
      · exact String.lt_trans hlt (hall e he)
    · split
      · rename_i heq
        exact List.pairwise_cons.2 ⟨fun e he => heq ▸ hall e he, hrest⟩
      · rename_i hlt hne
        refine List.pairwise_cons.2 ⟨fun e he => ?_, ih hrest⟩
        rcases mem_insertEntry he with rfl | he
        · rcases Decidable.em (key < name) with hk | hk
          · exact hk
          · exact absurd (String.le_antisymm (String.not_lt.1 hk) (String.not_lt.1 hlt)) hne
        · exact hall e he

/-- The properties with `name` set to `value`. -/
def insert (p : Properties) (name : String) (value : Marker.Value) : Properties :=
  ⟨insertEntry name value p.entries, sorted_insertEntry name value p.sorted⟩

theorem lookup_insertEntry_self (name : String) (value : Marker.Value)
    (entries : List (String × Marker.Value)) :
    (insertEntry name value entries).lookup name = some value := by
  induction entries with
  | nil => simp [insertEntry]
  | cons first rest ih =>
    obtain ⟨key, old⟩ := first
    simp only [insertEntry]
    split
    · simp
    · split
      · simp
      · rename_i hne
        simpa [List.lookup_cons, List.lookup_nil, beq_false_of_ne hne] using ih

theorem get?_insert_self (p : Properties) (name : String) (value : Marker.Value) :
    (p.insert name value).get? name = some value :=
  lookup_insertEntry_self name value p.entries

theorem lookup_insertEntry_of_ne {name other : String} (h : other ≠ name) (value : Marker.Value)
    (entries : List (String × Marker.Value)) :
    (insertEntry name value entries).lookup other = entries.lookup other := by
  induction entries with
  | nil => simp [insertEntry, List.lookup_cons, List.lookup_nil, beq_false_of_ne h]
  | cons first rest ih =>
    obtain ⟨key, old⟩ := first
    simp only [insertEntry]
    split
    · simp [List.lookup_cons, beq_false_of_ne h]
    · split
      · rename_i heq
        simp [List.lookup_cons, ← heq, beq_false_of_ne h]
      · simp only [List.lookup_cons, ih]

theorem get?_insert_of_ne (p : Properties) {name other : String} (h : other ≠ name)
    (value : Marker.Value) : (p.insert name value).get? other = p.get? other :=
  lookup_insertEntry_of_ne h value p.entries

/-- Of two entries with one name the later counts. -/
def ofEntries (entries : List (String × Marker.Value)) : Properties :=
  entries.foldl (fun p (name, value) => p.insert name value) empty

end Properties

structure Marker where
  typeName : String
  values : Properties
  deriving DecidableEq, Inhabited

end Mixins
