import Mixins.Layout
import Mixins.Proofs.OutermostName

/-!
# Names below a name

A name is taken apart into the name of the outermost type around it and the segments after that. A
name that is composed from another one and a segment has the same outermost type, and its segments
are those of the other one and the new one behind them. The dollar sign that may stand in front of
the simple name is not taken for a separation, nor is any other character, and those that stand at
the end of the other name or side by side in it stay where they are.

* `Chars.outermost_append`, `Chars.segments_append` — one more segment, on characters.
* `parts_below` — the parts of a name that goes on through any number of segments.
* `parts_nested` — the parts of a composed name, and the entry in which its type is kept.

A name with empty segments is taken apart as if it had none of them. It is then not the name that
its parts compose.

* `below_outermost_chain_iff` — the parts of a name compose that very name.
-/

namespace Mixins.Name

namespace Chars

/-! ## One more segment -/

/-- The segments after the separating dollar signs, those that are empty included. -/
def segments (name : List Char) : List (List Char) :=
  match (simple name).tail.dropWhile (· ≠ '$') with
  | [] => []
  | _ :: rest => rest.splitOn '$'

theorem chain_eq_filter (name : List Char) : chain name = (segments name).filter (· ≠ []) := by
  unfold chain segments
  cases (simple name).tail.dropWhile (· ≠ '$') <;> rfl

/-- A dollar sign further on is not the first one if there is one before it. -/
theorem takeWhile_append_dollar (s tail : List Char) :
    (s ++ '$' :: tail).takeWhile (· ≠ '$') = s.takeWhile (· ≠ '$') := by
  rw [List.takeWhile_append]
  split
  · rename_i hlength
    have hwhole := (List.takeWhile_prefix (· ≠ '$')).eq_of_length hlength
    rw [hwhole, List.takeWhile_cons_of_neg (by simp), List.append_nil]
  · rfl

theorem dropWhile_append_dollar (s tail : List Char) :
    (s ++ '$' :: tail).dropWhile (· ≠ '$') = s.dropWhile (· ≠ '$') ++ '$' :: tail := by
  rw [List.dropWhile_append]
  split
  · rename_i hempty
    rw [List.isEmpty_iff.1 hempty]
    simp
  · rfl

/-- Where a name with something behind its simple name is taken apart. -/
theorem parts_append (name : List Char) {tail : List Char} (hdot : '.' ∉ tail) :
    simple (name ++ tail) = simple name ++ tail ∧ package (name ++ tail) = package name := by
  obtain ⟨start, hname, hstart⟩ := exists_append_simple name
  have hwhole : '.' ∉ simple name ++ tail := by
    simp [dot_not_mem_simple name, hdot]
  have hpackage := (package_append hstart (dot_not_mem_simple name)).2
  have happend := (package_append hstart hwhole).2
  rw [← hname] at hpackage
  rw [← List.append_assoc, ← hname] at happend
  exact ⟨simple_append name hdot, happend.trans hpackage.symm⟩

section Composed

variable {name tail : List Char} (hne : simple name ≠ []) (hdot : '.' ∉ tail)

include hne hdot

/-- **The outermost type** around a composed name is the one around the name it is composed from. -/
theorem outermost_append : outermost (name ++ '$' :: tail) = outermost name := by
  have hbehind : '.' ∉ '$' :: tail := by simp [hdot]
  obtain ⟨hsimple, hpackage⟩ := parts_append name hbehind
  obtain ⟨c, rest, hs⟩ := List.exists_cons_of_ne_nil hne
  unfold outermost
  rw [hsimple, hpackage, hs]
  simp only [List.cons_append, takeWhile_append_dollar]

/-- **The segments** of a composed name go on with the new one. -/
theorem segments_append (hdollar : '$' ∉ tail) :
    segments (name ++ '$' :: tail) = segments name ++ [tail] := by
  have hbehind : '.' ∉ '$' :: tail := by simp [hdot]
  obtain ⟨hsimple, -⟩ := parts_append name hbehind
  obtain ⟨c, rest, hs⟩ := List.exists_cons_of_ne_nil hne
  unfold segments
  rw [hsimple, hs, List.cons_append, List.tail_cons, List.tail_cons, dropWhile_append_dollar]
  cases rest.dropWhile (· ≠ '$') with
  | nil => simp [List.splitOn_eq_singleton hdollar]
  | cons d after =>
    simp only [List.cons_append]
    rw [List.splitOn_append_cons_self, List.splitOn_eq_singleton hdollar]

end Composed

/-! ## Empty segments -/

/-- The segments, each after a dollar sign. -/
def separated (path : List (List Char)) : List Char := path.flatMap ('$' :: ·)

theorem separated_eq {path : List (List Char)} (h : path ≠ []) :
    separated path = '$' :: ['$'].intercalate path := by
  induction path with
  | nil => exact absurd rfl h
  | cons segment path ih =>
    cases path with
    | nil => simp [separated]
    | cons next path =>
      have hrest := ih (List.cons_ne_nil next path)
      rw [separated, List.flatMap_cons, ← separated, hrest,
        List.intercalate_cons_of_ne_nil (List.cons_ne_nil _ _)]
      simp

/-- What precedes the first dollar sign, and the segments from there on. -/
theorem takeWhile_append_segments (rest : List Char) :
    rest.takeWhile (· ≠ '$') ++ separated
      (match rest.dropWhile (· ≠ '$') with
        | [] => []
        | _ :: after => after.splitOn '$') = rest := by
  have hcut := List.takeWhile_append_dropWhile (p := (· ≠ '$')) (l := rest)
  cases hdrop : rest.dropWhile (· ≠ '$') with
  | nil =>
    rw [hdrop] at hcut
    exact hcut
  | cons d after =>
    have hd : d = '$' := by
      have hne : rest.dropWhile (· ≠ '$') ≠ [] := hdrop ▸ List.cons_ne_nil d after
      have hhead := List.head_dropWhile_not (· ≠ '$') hne
      simp only [hdrop, List.head_cons] at hhead
      simpa using hhead
    have hafter : separated (after.splitOn '$') = '$' :: after := by
      rw [separated_eq (List.splitOn_ne_nil '$' after), List.intercalate_splitOn]
    rw [hdrop, hd] at hcut
    simp only [hafter, hcut]

theorem outermost_append_segments (name : List Char) :
    outermost name ++ separated (segments name) = name := by
  have hwhole := package_append_simple name
  unfold outermost segments
  cases hs : simple name with
  | nil =>
    rw [hs] at hwhole
    simpa [separated] using hwhole
  | cons c rest =>
    rw [hs] at hwhole
    simp only [List.tail_cons, List.append_assoc, List.cons_append]
    rw [takeWhile_append_segments rest, hwhole]

theorem length_separated (path : List (List Char)) :
    (separated path).length = path.flatten.length + path.length := by
  induction path with
  | nil => rfl
  | cons segment path ih =>
    simp only [separated, List.flatMap_cons, List.length_append, List.length_cons,
      List.flatten_cons] at ih ⊢
    omega

/-- An empty segment leaves a dollar sign behind, so it cannot be left out unnoticed. -/
theorem separated_filter_iff {path : List (List Char)} :
    separated (path.filter (· ≠ [])) = separated path ↔ [] ∉ path := by
  constructor
  · intro h hempty
    have hlength := congrArg List.length h
    have hflatten : (path.filter (· ≠ [])).flatten = path.flatten := List.flatten_filter_ne_nil
    rw [length_separated, length_separated, hflatten, Nat.add_left_cancel_iff,
      List.length_filter_eq_length_iff] at hlength
    simpa using hlength [] hempty
  · intro h
    have hfull : path.filter (· ≠ []) = path :=
      List.filter_eq_self.2 fun segment hmem => decide_eq_true (ne_of_mem_of_not_mem hmem h)
    rw [hfull]

theorem outermost_append_chain_iff {name : List Char} :
    outermost name ++ separated (chain name) = name ↔ [] ∉ segments name := by
  have hwhole := outermost_append_segments name
  rw [← separated_filter_iff, ← chain_eq_filter]
  exact ⟨fun h => List.append_cancel_left (h.trans hwhole.symm), fun h => by rwa [h]⟩

end Chars

/-! ## Composed names -/

theorem outermost_nested {outer segment : String} (hne : simple outer ≠ "")
    (hdot : '.' ∉ segment.toList) : outermost (nested outer segment) = outermost outer := by
  rw [outermost, toList_nested, Chars.outermost_append (simple_ne_nil hne) hdot, outermost]

theorem chain_nested {outer segment : String} (hne : simple outer ≠ "") (h : IsSegment segment) :
    chain (nested outer segment) = chain outer ++ [segment] := by
  obtain ⟨hempty, hdot, hdollar⟩ := h
  have hsegment : segment.toList ≠ [] := by simpa using hempty
  rw [chain, toList_nested, Chars.chain_eq_filter,
    Chars.segments_append (simple_ne_nil hne) hdot hdollar, List.filter_append,
    ← Chars.chain_eq_filter, List.map_append, ← chain]
  simp [hsegment]

/-- **A name below another name** has its outermost type, and its chain goes on with the segments on
the way. -/
theorem parts_below {outer : String} {path : List String} (hne : simple outer ≠ "")
    (hpath : ∀ segment ∈ path, IsSegment segment) :
    outermost (below outer path) = outermost outer ∧
      chain (below outer path) = chain outer ++ path := by
  induction path generalizing outer with
  | nil => exact ⟨rfl, (List.append_nil _).symm⟩
  | cons segment path ih =>
    obtain ⟨hsegment, hrest⟩ := List.forall_mem_cons.1 hpath
    have hbelow : below outer (segment :: path) = below (nested outer segment) path := rfl
    obtain ⟨houtermost, hchain⟩ := ih (simple_nested_ne outer hsegment.2.1) hrest
    rw [hbelow, houtermost, hchain, outermost_nested hne hsegment.2.1, chain_nested hne hsegment]
    exact ⟨rfl, by simp⟩

/-- **Names are taken apart as they are composed.** The last segment of a composed name is the name
it was declared with; the outermost type, the way to the outer name and the archive entry are those
of the outer name. -/
theorem parts_nested {outer segment : String} (hne : simple outer ≠ "") (h : IsSegment segment) :
    inner (nested outer segment) = segment ∧
    outermost (nested outer segment) = outermost outer ∧
    chain (nested outer segment) = chain outer ++ [segment] ∧
    Layout.entryPath (nested outer segment) = Layout.entryPath outer := by
  have houtermost := outermost_nested hne h.2.1
  refine ⟨inner_nested hne h, houtermost, chain_nested hne h, ?_⟩
  rw [Layout.entryPath, houtermost, Layout.entryPath]

/-- Dollar signs in front, side by side and at the end of the outer name. -/
theorem parts_nested_dollars :
    (simple "a.$Ü$$B$" ≠ "" ∧ IsSegment "é") ∧
    inner (nested "a.$Ü$$B$" "é") = "é" ∧ outermost (nested "a.$Ü$$B$" "é") = "a.$Ü" ∧
    chain (nested "a.$Ü$$B$" "é") = ["B", "é"] ∧
    Layout.entryPath (nested "a.$Ü$$B$" "é") = "a/$Ü.ctype" := by
  have hne : simple "a.$Ü$$B$" ≠ "" := by decide
  have hsegment : IsSegment "é" := by decide
  have houtermost : outermost "a.$Ü$$B$" = "a.$Ü" := by decide
  have hchain : chain "a.$Ü$$B$" = ["B"] := by decide
  have hentry : Layout.entryPath "a.$Ü$$B$" = "a/$Ü.ctype" := by decide
  obtain ⟨hinner, hout, hway, hpath⟩ := parts_nested hne hsegment
  rw [houtermost] at hout
  rw [hchain] at hway
  rw [hentry] at hpath
  exact ⟨⟨hne, hsegment⟩, hinner, hout, hway, hpath⟩

/-! ## Names that their parts compose -/

/-- The segments after the separating dollar signs, those that are empty included. -/
def segments (name : String) : List String := (Chars.segments name.toList).map String.ofList

theorem toList_below (base : String) (path : List String) :
    (below base path).toList = base.toList ++ Chars.separated (path.map String.toList) := by
  induction path generalizing base with
  | nil => simp [below, Chars.separated]
  | cons segment path ih =>
    have hbelow : below base (segment :: path) = below (nested base segment) path := rfl
    rw [hbelow, ih, toList_nested]
    simp [Chars.separated]

/-- **The parts of a name compose it** exactly if it has no empty segment. -/
theorem below_outermost_chain_iff {name : String} :
    below (outermost name) (chain name) = name ↔ "" ∉ segments name := by
  have hempty : "" ∉ segments name ↔ [] ∉ Chars.segments name.toList := by
    simp [segments]
  rw [hempty, ← Chars.outermost_append_chain_iff, ← String.toList_inj, toList_below, outermost,
    String.toList_ofList, chain, List.map_map]
  simp

end Mixins.Name
