import Mixins.Proofs.Path

/-!
# The last piece of a path

The file name of a path is the last piece that names a component; idle pieces may follow it.

* `lastPiece?_eq_some` — where the last piece stands.
* `setExtension_of_text` — an extension goes to the last piece, and what follows it is cut off.
-/

namespace Mixins.Path

variable {pieces earlier : List (List Char)} {last : List Char}

/-- **The last piece** is not idle, and what follows it is. -/
theorem lastPiece?_eq_some : lastPiece? pieces = some (earlier, last) ↔
    isIdle last = false ∧ ∃ idle, (∀ piece ∈ idle, isIdle piece = true) ∧
      pieces = earlier ++ last :: idle := by
  unfold lastPiece?
  constructor
  · intro h
    cases hdrop : pieces.reverse.dropWhile isIdle with
    | nil => simp [hdrop] at h
    | cons found before =>
      simp only [hdrop, Option.some.injEq, Prod.mk.injEq] at h
      obtain ⟨rfl, rfl⟩ := h
      have hsplit : pieces.reverse.takeWhile isIdle ++ pieces.reverse.dropWhile isIdle =
          pieces.reverse := List.takeWhile_append_dropWhile
      have hhead := List.head?_dropWhile_not isIdle pieces.reverse
      rw [hdrop] at hsplit hhead
      refine ⟨by simpa using hhead, (pieces.reverse.takeWhile isIdle).reverse, ?_, ?_⟩
      · intro piece hpiece
        exact List.mem_takeWhile_imp (List.mem_reverse.1 hpiece)
      · have hback := congrArg List.reverse hsplit
        rw [List.reverse_reverse, List.reverse_append, List.reverse_cons, List.append_assoc]
          at hback
        exact hback.symm
  · rintro ⟨hlast, idle, hidle, rfl⟩
    have hskip : ∀ piece ∈ idle.reverse, isIdle piece = true :=
      fun piece hpiece => hidle piece (List.mem_reverse.1 hpiece)
    rw [List.reverse_append, List.reverse_cons, List.append_assoc,
      List.dropWhile_append_of_pos hskip]
    simp [hlast]

theorem lastPiece?_isSome (h : ∃ piece ∈ pieces, isIdle piece = false) :
    (lastPiece? pieces).isSome := by
  obtain ⟨piece, hmem, hpiece⟩ := h
  unfold lastPiece?
  cases hdrop : pieces.reverse.dropWhile isIdle with
  | nil =>
    rw [List.dropWhile_eq_nil_iff] at hdrop
    have hidle := hdrop piece (List.mem_reverse.2 hmem)
    rw [hpiece] at hidle
    cases hidle
  | cons found before => rfl

/-- A slash at the end of a path makes an empty piece, unless the path is a dot alone. -/
theorem parts_append_slash {text : List Char} (hne : text ≠ []) (hdot : text ≠ ['.']) :
    parts ⟨String.ofList (text ++ ['/'])⟩ =
      ((parts ⟨String.ofList text⟩).1, (parts ⟨String.ofList text⟩).2 ++ [[]]) := by
  have hsplit : ∀ body : List Char, (body ++ ['/']).splitOn '/' = body.splitOn '/' ++ [[]] := by
    intro body
    rw [List.splitOn_append_cons_self, List.splitOn_nil]
  by_cases habsolute : ∃ body, text = '/' :: body
  · obtain ⟨body, rfl⟩ := habsolute
    simp only [parts, String.toList_ofList, List.cons_append, hsplit]
  by_cases hcurrent : ∃ body, text = '.' :: '/' :: body
  · obtain ⟨body, rfl⟩ := hcurrent
    simp only [parts, String.toList_ofList, List.cons_append, hsplit]
  -- neither the text nor the longer one has a lead
  have hshort : parts ⟨String.ofList text⟩ = ([], text.splitOn '/') :=
    parts_of_relative (fun body heq => habsolute ⟨body, heq⟩) hdot fun body heq =>
      hcurrent ⟨body, heq⟩
  have hlong : parts ⟨String.ofList (text ++ ['/'])⟩ = ([], (text ++ ['/']).splitOn '/') := by
    obtain ⟨c, rest, rfl⟩ := List.exists_cons_of_ne_nil hne
    refine parts_of_relative ?_ (by simp) ?_
    · rintro body ⟨⟩
      exact habsolute ⟨rest, rfl⟩
    · intro body heq
      cases rest with
      | nil => exact hdot (by rw [(List.cons.inj heq).1])
      | cons d rest =>
        obtain ⟨hc, hrest⟩ := List.cons.inj heq
        exact hcurrent ⟨rest, by rw [hc, (List.cons.inj hrest).1]⟩
  rw [hshort, hlong, hsplit]

theorem parts_of_absolute {path : Path} (h : path.isAbsolute = true) : path.parts.1 = ['/'] := by
  obtain ⟨body, hbody⟩ := List.head?_eq_some_iff.1 (beq_iff_eq.1 h)
  simp only [parts, hbody]

theorem intercalate_append (xs : List (List Char)) {ys : List (List Char)} (hne : ys ≠ []) :
    ['/'].intercalate (xs ++ ys) = ['/'].intercalate (xs ++ [[]]) ++ ['/'].intercalate ys := by
  induction xs with
  | nil => rfl
  | cons x xs ih =>
    rw [List.cons_append, List.cons_append, List.intercalate_cons_of_ne_nil (by simp [hne]), ih,
      List.intercalate_cons_of_ne_nil (by simp)]
    simp

/-- The text before the last of several pieces is what others are put after. -/
theorem lead_intercalate (xs : List (List Char)) :
    lead (['/'].intercalate (xs ++ [[]])) = ['/'].intercalate (xs ++ [[]]) := by
  induction xs with
  | nil => rfl
  | cons x xs ih =>
    have hslash : lead (x ++ ['/']) = x ++ ['/'] := by rw [lead_concat, if_pos rfl]
    rw [List.cons_append, List.intercalate_cons_of_ne_nil (by simp), ← hslash, lead_append, ih]

theorem not_mem_splitOn {sep : Char} {text piece : List Char} (h : piece ∈ text.splitOn sep) :
    sep ∉ piece := by
  induction text generalizing piece with
  | nil => simp_all
  | cons c text ih =>
    rw [List.splitOn_cons_eq_if_modifyHead] at h
    obtain ⟨first, rest, hsplit⟩ := List.exists_cons_of_ne_nil (List.splitOn_ne_nil sep text)
    rw [hsplit] at h ih
    split at h
    · rcases List.mem_cons.1 h with rfl | h
      · exact List.not_mem_nil
      · exact ih h
    · rename_i hc
      rcases List.mem_cons.1 h with rfl | h
      · rw [List.mem_cons, not_or]
        exact ⟨fun heq => hc (by rw [← heq, beq_self_eq_true]), ih List.mem_cons_self⟩
      · exact ih (List.mem_cons_of_mem _ h)

/-- The characters of a text are separators and those of its pieces. -/
theorem mem_intercalate_iff {sep c : Char} (hc : c ≠ sep) :
    c ∈ [sep].intercalate pieces ↔ ∃ piece ∈ pieces, c ∈ piece := by
  induction pieces with
  | nil => simp
  | cons piece pieces ih =>
    cases pieces with
    | nil => simp
    | cons next pieces =>
      rw [List.intercalate_cons_of_ne_nil (List.cons_ne_nil _ _), List.mem_append, ih]
      simp [hc]

/-- The characters of a piece are in the text. -/
theorem mem_of_mem_splitOn {sep : Char} {text piece : List Char}
    (hpiece : piece ∈ text.splitOn sep) {c : Char} (hc : c ∈ piece) : c ∈ text := by
  have htext : [sep].intercalate (text.splitOn sep) = text := List.intercalate_splitOn sep
  have hne : c ≠ sep := fun h => not_mem_splitOn hpiece (h ▸ hc)
  rw [← htext, mem_intercalate_iff hne]
  exact ⟨piece, hpiece, hc⟩

/-- **An extension goes to the last piece** of a text without dots, and the slashes after it are cut
off. -/
theorem setExtension_of_text {text : List Char} (extension : String)
    (hrelative : text.head? ≠ some '/') (hdot : '.' ∉ text) (hname : ∃ c ∈ text, c ≠ '/')
    (hextension : extension ≠ "") (hslash : '/' ∉ extension.toList) :
    ∃ (start : Path) (segment : List Char), IsSegment segment ∧ start.isAbsolute = false ∧
      '.' ∉ start.text.toList ∧ setExtension ⟨String.ofList text⟩ extension =
        start.join ⟨String.ofList (segment ++ '.' :: extension.toList)⟩ := by
  have hparts : parts ⟨String.ofList text⟩ = ([], text.splitOn '/') := by
    refine parts_of_relative (fun body h => hrelative (by rw [h]; rfl)) (fun h => hdot ?_)
      (fun body h => hdot ?_) <;> rw [h] <;> exact List.mem_cons_self
  have htext : ['/'].intercalate (text.splitOn '/') = text := List.intercalate_splitOn '/'
  obtain ⟨⟨earlier, last⟩, hlast⟩ : ∃ found, lastPiece? (text.splitOn '/') = some found := by
    obtain ⟨c, hmem, hc⟩ := hname
    rw [← htext, mem_intercalate_iff hc] at hmem
    obtain ⟨piece, hpiece, hmem⟩ := hmem
    refine Option.isSome_iff_exists.1 (lastPiece?_isSome ⟨piece, hpiece, ?_⟩)
    have hother : piece ≠ ['.'] := fun h =>
      hdot (mem_of_mem_splitOn hpiece (h ▸ List.mem_cons_self))
    simp [isIdle, hother, List.ne_nil_of_mem hmem]
  obtain ⟨hbusy, idle, -, hpieces⟩ := lastPiece?_eq_some.1 hlast
  have hmem : last ∈ text.splitOn '/' := by simp [hpieces]
  have hsegment : IsSegment last := by
    refine ⟨fun h => ?_, not_mem_splitOn hmem, fun h => hdot (mem_of_mem_splitOn hmem h)⟩
    rw [h] at hbusy
    cases hbusy
  have hstart := intercalate_append earlier (List.cons_ne_nil last idle)
  rw [← hpieces, htext] at hstart
  refine ⟨⟨String.ofList (['/'].intercalate (earlier ++ [[]]))⟩, last, hsegment, ?_, ?_, ?_⟩
  · rw [isAbsolute, String.toList_ofList, beq_eq_false_iff_ne]
    intro hhead
    rw [hstart, List.head?_append, hhead] at hrelative
    exact hrelative rfl
  · rw [String.toList_ofList]
    exact fun h => hdot (hstart ▸ List.mem_append_left _ h)
  · have hfile : fileName? ⟨String.ofList text⟩ = some last := by
      simp [fileName?, hparts, hlast, hsegment.isFileName.dots]
    rw [join_name _ (hsegment.append hslash).slash, String.toList_ofList, lead_intercalate]
    simp only [setExtension, hparts, hfile, hlast, if_neg hextension,
      splitExtension_of_not_mem hsegment.dot, ofParts, List.nil_append]
    rw [intercalate_append earlier (List.cons_ne_nil _ _), List.intercalate_singleton]

end Mixins.Path
