import Mixins.Proofs.Path.LastPiece

/-!
# The parent of a path

* `names_eq_parts` — the names in a path, from its lead and its pieces.
* `parent?_of_names` — the parent has the names before the last, except for dots at the end.
-/

namespace Mixins.Path

open FileTree (names)

variable {path : Path}

/-- The names in a lead. -/
def leadNames (lead : List Char) : List String :=
  if lead = ['.'] then ["."] else []

/-- The names in some pieces. -/
def pieceNames (pieces : List (List Char)) : List String :=
  (pieces.filter (· ≠ [])).map String.ofList

theorem pieceNames_append (pieces more : List (List Char)) :
    pieceNames (pieces ++ more) = pieceNames pieces ++ pieceNames more := by
  simp [pieceNames]

/-- Whether a lead and pieces are those of a path, or of the beginning of one. -/
structure Begins (lead : List Char) (pieces : List (List Char)) : Prop where
  slash : ∀ piece ∈ pieces, '/' ∉ piece
  lead : lead = [] ∨ lead = ['/'] ∨ lead = ['.'] ∧ (pieces = [] ∨ ∃ rest, pieces = [] :: rest)

theorem Begins.of_append {lead : List Char} {pieces more : List (List Char)}
    (h : Begins lead (pieces ++ more)) : Begins lead pieces := by
  refine ⟨fun piece hpiece => h.slash piece (List.mem_append_left _ hpiece), ?_⟩
  refine h.lead.imp_right (.imp_right (.imp_right ?_))
  intro hstart
  cases pieces with
  | nil => exact .inl rfl
  | cons piece rest =>
    obtain hnil | ⟨rest', hcons⟩ := hstart
    · cases hnil
    · obtain ⟨rfl, -⟩ := List.cons.inj hcons
      exact .inr ⟨rest, rfl⟩

theorem begins_parts (path : Path) : Begins path.parts.1 path.parts.2 := by
  unfold parts
  split
  · exact ⟨fun _ => not_mem_splitOn, .inr (.inl rfl)⟩
  · exact ⟨by simp, .inr (.inr ⟨rfl, .inl rfl⟩)⟩
  · exact ⟨by simpa using fun _ => not_mem_splitOn, .inr (.inr ⟨rfl, .inr ⟨_, rfl⟩⟩)⟩
  · exact ⟨fun _ => not_mem_splitOn, .inl rfl⟩

theorem splitOn_intercalate_names {pieces : List (List Char)}
    (h : ∀ piece ∈ pieces, '/' ∉ piece) :
    ((['/'].intercalate pieces).splitOn '/').filter (· ≠ []) = pieces.filter (· ≠ []) := by
  cases pieces with
  | nil => rfl
  | cons piece rest => rw [List.splitOn_intercalate '/' h (List.cons_ne_nil _ _)]

theorem names_ofParts {lead : List Char} {pieces : List (List Char)} (h : Begins lead pieces) :
    names (ofParts lead pieces) = leadNames lead ++ pieceNames pieces := by
  unfold names ofParts pieceNames
  rw [String.toList_ofList]
  obtain rfl | rfl | ⟨rfl, rfl | ⟨rest, rfl⟩⟩ := h.lead
  · rw [List.nil_append, splitOn_intercalate_names h.slash]
    rfl
  · rw [List.singleton_append, List.splitOn_cons_eq_if_modifyHead, beq_self_eq_true, if_pos rfl,
      List.filter_cons_of_neg (by simp), splitOn_intercalate_names h.slash]
    rfl
  · rfl
  · cases rest with
    | nil => rfl
    | cons piece rest =>
      have hslash := fun p hp => h.slash p (List.mem_cons_of_mem [] hp)
      have htext : ['.'] ++ ['/'].intercalate ([] :: piece :: rest) =
          ['.'] ++ '/' :: ['/'].intercalate (piece :: rest) := by
        rw [List.intercalate_cons_of_ne_nil (List.cons_ne_nil _ _)]
        rfl
      rw [htext, List.splitOn_append_cons_self, List.filter_append,
        splitOn_intercalate_names hslash]
      rfl

/-- **The names in a path**, from its lead and its pieces. -/
theorem names_eq_parts (path : Path) :
    names path = leadNames path.parts.1 ++ pieceNames path.parts.2 := by
  have hnames := names_ofParts (begins_parts path)
  rw [ofParts_parts] at hnames
  exact hnames

/-- A path has no fewer components than names that are no dots. -/
theorem length_le_components {before way : List String} (h : names path = before ++ way)
    (hway : ∀ name ∈ way, name ≠ ".") : way.length ≤ path.components.length := by
  have hlead : (leadNames path.parts.1).filter (· ≠ ".") = [] := by
    unfold leadNames
    split <;> simp
  have hbusy : ∀ piece : List Char, (decide (piece ≠ []) && decide (String.ofList piece ≠ ".")) =
      !isIdle piece := by
    intro piece
    have hdot : String.ofList piece = "." ↔ piece = ['.'] := by
      rw [← String.toList_inj, String.toList_ofList]
      rfl
    by_cases hnil : piece = []
    · simp [hnil, isIdle]
    · by_cases hone : piece = ['.']
      · simp [hone, isIdle]
      · simp [hdot, hnil, hone, isIdle]
  have hnames : (names path).filter (· ≠ ".") =
      (path.parts.2.filter (!isIdle ·)).map String.ofList := by
    rw [names_eq_parts, List.filter_append, hlead, List.nil_append, pieceNames, List.filter_map,
      List.filter_filter]
    simp only [Function.comp_apply, Bool.and_comm, hbusy]
  have hall : way.filter (· ≠ ".") = way := List.filter_eq_self.2 (by simpa using hway)
  have hlength := congrArg List.length hnames
  rw [h, List.filter_append, hall, List.length_append, List.length_map] at hlength
  simp only [components, List.length_append, List.length_map]
  omega

/-! ## The parent -/

theorem text_eq_parts (path : Path) :
    path.text.toList = path.parts.1 ++ ['/'].intercalate path.parts.2 := by
  have htext := congrArg (·.text.toList) (ofParts_parts path)
  rw [← htext, ofParts, String.toList_ofList]

theorem eq_dot_of_idle {pieces : List (List Char)} (h : ∀ piece ∈ pieces, isIdle piece = true) :
    ∀ name ∈ pieceNames pieces, name = "." := by
  intro name hname
  obtain ⟨piece, hpiece, rfl⟩ := List.mem_map.1 hname
  obtain ⟨hmem, hne⟩ := List.mem_filter.1 hpiece
  have hidle := h piece hmem
  simp only [isIdle, Bool.or_eq_true, beq_iff_eq] at hidle
  rcases hidle with rfl | rfl
  · simp at hne
  · rfl

/-- Where the last of the names is not a dot, it is that of the last piece. -/
theorem lastPiece?_of_names {start : List String} {last : String}
    (h : names path = start ++ [last]) (hlast : last ≠ ".") : ∃ earlier piece idle,
    path.parts.2 = earlier ++ piece :: idle ∧ lastPiece? path.parts.2 = some (earlier, piece) ∧
      start = leadNames path.parts.1 ++ pieceNames earlier := by
  rw [names_eq_parts] at h
  have hmem : last ∈ leadNames path.parts.1 ++ pieceNames path.parts.2 := by simp [h]
  cases hfound : lastPiece? path.parts.2 with
  | none =>
    have hidle : ∀ piece ∈ path.parts.2, isIdle piece = true := by
      intro piece hpiece
      by_contra hbusy
      have hsome := lastPiece?_isSome ⟨piece, hpiece, Bool.eq_false_iff.2 hbusy⟩
      rw [hfound] at hsome
      cases hsome
    rcases List.mem_append.1 hmem with hmem | hmem
    · unfold leadNames at hmem
      split at hmem
      · exact absurd (List.mem_singleton.1 hmem) hlast
      · cases hmem
    · exact absurd (eq_dot_of_idle hidle _ hmem) hlast
  | some found =>
    obtain ⟨earlier, piece⟩ := found
    obtain ⟨hbusy, idle, hidle, hpieces⟩ := lastPiece?_eq_some.1 hfound
    have hne : piece ≠ [] := by
      rintro rfl
      cases hbusy
    have hnames : pieceNames (piece :: idle) = String.ofList piece :: pieceNames idle := by
      simp [pieceNames, hne]
    refine ⟨earlier, piece, idle, hpieces, rfl, ?_⟩
    rw [hpieces, pieceNames_append, hnames, ← List.append_assoc] at h
    rcases List.eq_nil_or_concat (pieceNames idle) with hnil | ⟨before, dot, hdots⟩
    · rw [hnil] at h
      exact (List.append_inj' h rfl).1.symm
    · rw [List.concat_eq_append] at hdots
      rw [hdots, ← List.cons_append, ← List.append_assoc] at h
      have hdot := eq_dot_of_idle hidle dot (by simp [hdots])
      have hsame := (List.append_inj' h rfl).2
      rw [List.cons.injEq, hdot] at hsame
      exact absurd hsame.1.symm hlast

theorem intercalate_isPrefix (pieces more : List (List Char)) :
    ['/'].intercalate pieces <+: ['/'].intercalate (pieces ++ more) := by
  induction pieces with
  | nil => exact List.nil_prefix
  | cons piece pieces ih =>
    cases pieces with
    | nil =>
      cases more with
      | nil => exact List.prefix_refl _
      | cons next more =>
        rw [List.intercalate_singleton, List.singleton_append,
          List.intercalate_cons_of_ne_nil (List.cons_ne_nil _ _), List.append_assoc]
        exact List.prefix_append _ _
    | cons next pieces =>
      have hrest : next :: pieces ++ more ≠ [] := List.cons_ne_nil _ _
      rw [List.cons_append, List.intercalate_cons_of_ne_nil (List.cons_ne_nil next pieces),
        List.intercalate_cons_of_ne_nil hrest]
      exact (List.prefix_append_right_inj _).2 ih

theorem isAbsolute_of_isPrefix {parent : Path} (h : parent.text.toList <+: path.text.toList)
    (habsolute : parent.isAbsolute = true) : path.isAbsolute = true := by
  obtain ⟨body, hbody⟩ := List.head?_eq_some_iff.1 (beq_iff_eq.1 habsolute)
  obtain ⟨rest, hrest⟩ := h
  rw [isAbsolute, ← hrest, hbody]
  rfl

/-- **The parent** has the names before the last, except for dots at the end. Its text is the
beginning of the path's. -/
theorem parent?_of_names {start : List String} {last : String}
    (h : names path = start ++ [last]) (hlast : last ≠ ".") : ∃ parent dots,
    path.parent? = some parent ∧ start = names parent ++ dots ∧ (∀ dot ∈ dots, dot = ".") ∧
      parent.isAbsolute = path.isAbsolute ∧ parent.text.toList <+: path.text.toList := by
  obtain ⟨earlier, piece, idle, hpieces, hfound, hstart⟩ := lastPiece?_of_names h hlast
  have hsplit := List.takeWhile_append_dropWhile (p := isIdle) (l := earlier.reverse)
  have hearlier := congrArg List.reverse hsplit
  rw [List.reverse_append, List.reverse_reverse] at hearlier
  generalize hkept : (earlier.reverse.dropWhile isIdle).reverse = kept at hearlier
  have hbegins := begins_parts path
  rw [hpieces, ← hearlier, List.append_assoc] at hbegins
  have htext : (ofParts path.parts.1 kept).text.toList <+: path.text.toList := by
    rw [text_eq_parts path, hpieces, ← hearlier, List.append_assoc, ofParts, String.toList_ofList]
    exact (List.prefix_append_right_inj _).2 (intercalate_isPrefix _ _)
  refine ⟨ofParts path.parts.1 kept,
    pieceNames (earlier.reverse.takeWhile isIdle).reverse, ?_, ?_, ?_, ?_, htext⟩
  · unfold parent?
    dsimp only
    rw [hfound, ← hkept]
  · rw [names_ofParts hbegins.of_append, hstart, List.append_assoc, ← pieceNames_append, hearlier]
  · exact eq_dot_of_idle fun p hp => List.mem_takeWhile_imp (List.mem_reverse.1 hp)
  · cases habsolute : path.isAbsolute with
    | true => simp [parts_of_absolute habsolute, ofParts, isAbsolute]
    | false =>
      refine Bool.eq_false_iff.2 fun hparent => ?_
      rw [isAbsolute_of_isPrefix htext hparent] at habsolute
      cases habsolute

end Mixins.Path
