import Mixins.Text.Utf8

/-!
# File trees

The directories and files that a program can reach. A location is the list of names from the root;
the tree maps locations to nodes. The root is always a directory and is not listed; whatever is
listed lies in a directory and has a name that a path can spell.

Principal statements: `find?_put`, `find?_erase`, `find?_removeAll` — what is found at each location
after a change.
-/

namespace Mixins

open Utf8 (Bytes)

/-- The names from the root. -/
abbrev Location := List String

inductive Node where
  | directory
  | file (content : Bytes)
  deriving DecidableEq, Repr, Inhabited

/-- A name may have this many bytes. -/
def maxNameSize : Nat := 255

/-- Whether a file or directory may have this name. -/
def isNodeName (name : String) : Bool :=
  name ≠ "" && name ≠ "." && name ≠ ".." && name.toList.all (fun c => c ≠ '/' && c ≠ '\x00')
    && name.utf8ByteSize ≤ maxNameSize

structure FileTree where
  nodes : List (Location × Node)
  /-- The directory in which relative paths start. -/
  start : Location
  /-- When the file at a location was modified, in milliseconds since 1970; 0 if not listed. -/
  times : List (Location × Int64)
  distinct : nodes.Pairwise (·.1 ≠ ·.1)
  rooted : ∀ e ∈ nodes, e.1 ≠ [] ∧ (e.1.dropLast = [] ∨ (e.1.dropLast, Node.directory) ∈ nodes)
  named : ∀ e ∈ nodes, e.1.all isNodeName

namespace FileTree

/-- A tree without files, in which relative paths start at the root. -/
def empty : FileTree := ⟨[], [], [], .nil, by simp, by simp⟩

instance : Inhabited FileTree := ⟨empty⟩

def find? (t : FileTree) (l : Location) : Option Node :=
  if l = [] then some .directory else t.nodes.lookup l

theorem lookup_eq_some_iff {nodes : List (Location × Node)} (h : nodes.Pairwise (·.1 ≠ ·.1))
    {l : Location} {n : Node} : nodes.lookup l = some n ↔ (l, n) ∈ nodes := by
  induction nodes with
  | nil => simp
  | cons e rest ih =>
    obtain ⟨k, m⟩ := e
    obtain ⟨hk, hrest⟩ := List.pairwise_cons.1 h
    by_cases hl : l = k
    · subst hl
      have hnot : (l, n) ∉ rest := fun hmem => hk _ hmem rfl
      simp [hnot, eq_comm]
    · simp [List.lookup_cons, beq_false_of_ne hl, ih hrest, hl]

theorem find?_eq_some_iff (t : FileTree) {l : Location} {n : Node} (h : l ≠ []) :
    t.find? l = some n ↔ (l, n) ∈ t.nodes := by
  rw [find?, if_neg h, lookup_eq_some_iff t.distinct]

/-- Whether a node may be put at a location: its parent must be a directory, no directory may be
there already, and its name must be one. -/
def Admits (t : FileTree) (l : Location) : Prop :=
  l ≠ [] ∧ t.find? l.dropLast = some .directory ∧ t.find? l ≠ some .directory ∧ l.all isNodeName

instance (t : FileTree) (l : Location) : Decidable (t.Admits l) :=
  inferInstanceAs (Decidable (_ ∧ _ ∧ _ ∧ _))

/-- The tree with a node at a location, instead of the file that may be there. -/
def put (t : FileTree) (l : Location) (n : Node) (h : t.Admits l) : FileTree :=
  { t with
    nodes := t.nodes.filter (·.1 ≠ l) ++ [(l, n)]
    distinct := by
      rw [List.pairwise_append]
      refine ⟨t.distinct.filter _, by simp, fun a ha b hb => ?_⟩
      rw [List.mem_singleton] at hb
      simpa [hb] using (List.mem_filter.1 ha).2
    rooted := by
      obtain ⟨hne, hparent, hnot, -⟩ := h
      have keep : ∀ d : Location, d ≠ [] → (d, Node.directory) ∈ t.nodes →
          (d, Node.directory) ∈ t.nodes.filter (·.1 ≠ l) ++ [(l, n)] := by
        intro d hd hmem
        refine List.mem_append_left _ (List.mem_filter.2 ⟨hmem, ?_⟩)
        refine decide_eq_true fun heq : d = l => hnot ?_
        exact (t.find?_eq_some_iff hne).2 (heq ▸ hmem)
      intro e he
      rcases List.mem_append.1 he with he | he
      · obtain ⟨hroot, hdir⟩ := t.rooted e (List.mem_filter.1 he).1
        refine ⟨hroot, ?_⟩
        by_cases hd : e.1.dropLast = []
        · exact .inl hd
        · exact .inr (keep _ hd (hdir.resolve_left hd))
      · rw [List.mem_singleton] at he
        subst he
        refine ⟨hne, ?_⟩
        by_cases hd : l.dropLast = []
        · exact .inl hd
        · exact .inr (keep _ hd ((t.find?_eq_some_iff hd).1 hparent))
    named := by
      intro e he
      rcases List.mem_append.1 he with he | he
      · exact t.named e (List.mem_filter.1 he).1
      · rw [List.mem_singleton] at he
        exact he ▸ h.2.2.2 }

/-- As `put`, if the tree admits it. -/
def put? (t : FileTree) (l : Location) (n : Node) : Option FileTree :=
  if h : t.Admits l then some (t.put l n h) else none

/-- The tree without the file at a location. A directory stays. -/
def erase (t : FileTree) (l : Location) : FileTree :=
  if h : t.find? l = some .directory then t
  else
    { t with
      nodes := t.nodes.filter (·.1 ≠ l)
      distinct := t.distinct.filter _
      rooted := by
        intro e he
        obtain ⟨hroot, hdir⟩ := t.rooted e (List.mem_filter.1 he).1
        refine ⟨hroot, ?_⟩
        by_cases hd : e.1.dropLast = []
        · exact .inl hd
        · refine .inr (List.mem_filter.2 ⟨hdir.resolve_left hd, decide_eq_true fun heq => h ?_⟩)
          exact heq ▸ (t.find?_eq_some_iff hd).2 (hdir.resolve_left hd)
      named := fun e he => t.named e (List.mem_filter.1 he).1 }

/-- The tree without the node at a location and without everything below it. -/
def removeAll (t : FileTree) (l : Location) : FileTree :=
  { t with
    nodes := t.nodes.filter fun e => !l.isPrefixOf e.1
    distinct := t.distinct.filter _
    rooted := by
      intro e he
      obtain ⟨hmem, hbelow⟩ := List.mem_filter.1 he
      obtain ⟨hroot, hdir⟩ := t.rooted e hmem
      refine ⟨hroot, ?_⟩
      by_cases hd : e.1.dropLast = []
      · exact .inl hd
      · refine .inr (List.mem_filter.2 ⟨hdir.resolve_left hd, ?_⟩)
        rw [Bool.not_eq_eq_eq_not, Bool.not_true, ← Bool.not_eq_true,
          List.isPrefixOf_iff_prefix] at hbelow ⊢
        exact fun hstart => hbelow (hstart.trans (List.dropLast_prefix _))
    named := fun e he => t.named e (List.mem_filter.1 he).1 }

theorem lookup_filter (keep : Location → Bool) (nodes : List (Location × Node)) (m : Location) :
    (nodes.filter fun e => keep e.1).lookup m = if keep m then nodes.lookup m else none := by
  induction nodes with
  | nil => simp
  | cons e rest ih =>
    obtain ⟨k, n⟩ := e
    by_cases hm : m = k
    · subst hm
      by_cases hk : keep m <;> simp [hk, ih]
    · by_cases hk : keep k <;> simp [hk, ih, List.lookup_cons, beq_false_of_ne hm]

theorem lookup_filter_ne (nodes : List (Location × Node)) (l m : Location) :
    (nodes.filter (·.1 ≠ l)).lookup m = if m = l then none else nodes.lookup m := by
  rw [lookup_filter (· ≠ l)]
  by_cases hm : m = l <;> simp [hm]

theorem find?_put (t : FileTree) (l : Location) (n : Node) (h : t.Admits l) (m : Location) :
    (t.put l n h).find? m = if m = l then some n else t.find? m := by
  by_cases hm : m = []
  · subst hm
    rw [if_neg (Ne.symm h.1)]
    rfl
  · simp only [find?, put, if_neg hm, List.lookup_append, lookup_filter_ne]
    by_cases hl : m = l
    · simp [hl]
    · simp [hl, List.lookup_cons, List.lookup_nil, beq_false_of_ne hl]

theorem find?_erase (t : FileTree) {l : Location} (h : t.find? l ≠ some .directory) (m : Location) :
    (t.erase l).find? m = if m = l then none else t.find? m := by
  unfold erase
  rw [dif_neg h]
  by_cases hm : m = []
  · subst hm
    by_cases hl : l = []
    · exact absurd (by rw [hl]; rfl) h
    · rw [if_neg (Ne.symm hl)]
      rfl
  · simp only [find?, if_neg hm, lookup_filter_ne]

theorem find?_removeAll (t : FileTree) {l : Location} (h : l ≠ []) (m : Location) :
    (t.removeAll l).find? m = if l <+: m then none else t.find? m := by
  by_cases hm : m = []
  · subst hm
    rw [if_neg (by simpa using h)]
    rfl
  · simp only [find?, if_neg hm, removeAll]
    rw [lookup_filter (!l.isPrefixOf ·)]
    by_cases hp : l <+: m
    · simp [hp, List.isPrefixOf_iff_prefix.2 hp]
    · have : l.isPrefixOf m = false := by
        rwa [← Bool.not_eq_true, List.isPrefixOf_iff_prefix]
      simp [hp, this]

end FileTree

end Mixins
