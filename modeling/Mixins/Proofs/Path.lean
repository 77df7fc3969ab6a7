import Mathlib.Data.List.TakeWhile
import Mixins.FileTree.Change

/-!
# Paths below a path

A file name that is joined to a path is its last piece. So it is the last of the path's names, and
another extension changes nothing before it.

* `names_join` — the names of a path below another.
* `setExtension_join`, `temporary_join` — where extensions go.
-/

namespace Mixins

open FileTree (names)

namespace Path

theorem ext_toList {path other : Path} (h : path.text.toList = other.text.toList) :
    path = other := by
  obtain ⟨text⟩ := path
  obtain ⟨text'⟩ := other
  rw [Path.mk.injEq]
  exact String.toList_inj.1 h

/-! ## Joining -/

/-- The text of a path as others are put after it. -/
def lead (text : List Char) : List Char :=
  if text.getLast?.all (· == '/') then text else text ++ ['/']

theorem lead_nil : lead [] = [] := rfl

theorem lead_concat (text : List Char) (c : Char) :
    lead (text ++ [c]) = if c = '/' then text ++ [c] else text ++ [c, '/'] := by
  simp [lead]

/-- Whether names can be put after a text as they are: it is empty or ends in a slash. -/
def IsFront (front : List Char) : Prop := front = [] ∨ ∃ before, front = before ++ ['/']

theorem IsFront.lead_eq {front : List Char} (h : IsFront front) : lead front = front := by
  rcases h with rfl | ⟨before, rfl⟩
  · rfl
  · rw [lead_concat, if_pos rfl]

theorem isFront_lead (text : List Char) : IsFront (lead text) := by
  rcases List.eq_nil_or_concat text with rfl | ⟨start, c, rfl⟩
  · exact .inl rfl
  · refine .inr ?_
    rw [List.concat_eq_append, lead_concat]
    split
    · rename_i hc
      exact ⟨start, by rw [hc]⟩
    · exact ⟨start ++ [c], by simp⟩

theorem lead_lead (text : List Char) : lead (lead text) = lead text :=
  (isFront_lead text).lead_eq

theorem lead_append (text other : List Char) :
    lead (lead text ++ other) = lead text ++ lead other := by
  rcases List.eq_nil_or_concat other with rfl | ⟨start, c, rfl⟩
  · rw [List.append_nil, lead_lead, lead_nil, List.append_nil]
  · rw [List.concat_eq_append, ← List.append_assoc, lead_concat, lead_concat]
    split <;> simp

theorem join_toList (path : Path) {other : Path} (h : other.isAbsolute = false) :
    (path.join other).text.toList = lead path.text.toList ++ other.text.toList := by
  unfold join
  rw [h]
  rcases List.eq_nil_or_concat path.text.toList with hempty | ⟨start, c, hlast⟩
  · have htext : path.text = "" := String.toList_inj.1 (by rw [hempty]; rfl)
    simp [htext, lead_nil]
  · have htext : path.text ≠ "" := fun h => by simp [h] at hlast
    rw [List.concat_eq_append] at hlast
    by_cases hc : c = '/'
    · simp [htext, hlast, lead_concat, hc]
    · simp [htext, hlast, lead_concat, hc]

theorem isAbsolute_eq (path : Path) :
    path.isAbsolute = ((lead path.text.toList).head? == some '/') := by
  rw [isAbsolute]
  cases path.text.toList with
  | nil => rfl
  | cons c rest =>
    unfold lead
    split <;> simp

theorem isAbsolute_join (path : Path) {other : Path} (h : other.isAbsolute = false) :
    (path.join other).isAbsolute = path.isAbsolute := by
  rw [isAbsolute_eq, join_toList path h, lead_append, isAbsolute_eq path]
  rw [isAbsolute_eq] at h
  cases lead path.text.toList with
  | nil => rw [List.nil_append, h]; rfl
  | cons c rest => rfl

theorem join_join (path : Path) {other last : Path} (hother : other.isAbsolute = false)
    (hlast : last.isAbsolute = false) :
    path.join (other.join last) = (path.join other).join last := by
  have hjoined : (other.join last).isAbsolute = false := by rw [isAbsolute_join other hlast, hother]
  refine ext_toList ?_
  rw [join_toList _ hlast, join_toList _ hother, lead_append, join_toList _ hjoined,
    join_toList _ hlast, List.append_assoc]

theorem names_join (path : Path) {other : Path} (h : other.isAbsolute = false) :
    names (path.join other) = names path ++ names other := by
  unfold names
  rw [join_toList path h, ← List.map_append]
  refine congrArg _ ?_
  rcases List.eq_nil_or_concat path.text.toList with hempty | ⟨start, c, hlast⟩
  · simp [hempty, lead_nil]
  · rw [List.concat_eq_append] at hlast
    rw [hlast, lead_concat]
    split
    · rename_i hc
      rw [hc, List.append_assoc, List.singleton_append, List.splitOn_append_cons_self,
        List.splitOn_append_cons_self]
      simp
    · have hsplit : start ++ [c, '/'] ++ other.text.toList =
          (start ++ [c]) ++ '/' :: other.text.toList := by simp
      rw [hsplit, List.splitOn_append_cons_self, List.filter_append]

/-! ## Pieces -/

/-- A piece that can be the name of a file. -/
structure IsFileName (name : List Char) : Prop where
  slash : '/' ∉ name
  nonempty : name ≠ []
  dot : name ≠ ['.']
  dots : name ≠ ['.', '.']

theorem ofParts_parts (path : Path) : ofParts path.parts.1 path.parts.2 = path := by
  refine ext_toList ?_
  unfold parts ofParts
  split
  · simp [*, List.intercalate_splitOn]
  · simp [*]
  · simp [*, List.intercalate_cons_of_ne_nil (List.splitOn_ne_nil _ _), List.intercalate_splitOn]
  · simp [List.intercalate_splitOn]

theorem parts_of_relative {text : List Char} (hroot : ∀ body, text ≠ '/' :: body)
    (hdot : text ≠ ['.']) (hcurrent : ∀ body, text ≠ '.' :: '/' :: body) :
    parts ⟨String.ofList text⟩ = ([], text.splitOn '/') := by
  unfold parts
  rw [String.toList_ofList]
  split
  · exact absurd rfl (hroot _)
  · exact absurd rfl hdot
  · exact absurd rfl (hcurrent _)
  · rfl

theorem splitOn_append_name {start name : List Char} (hstart : IsFront start) (hname : '/' ∉ name) :
    (start ++ name).splitOn '/' = (start.splitOn '/').dropLast ++ [name] := by
  rcases hstart with rfl | ⟨before, rfl⟩
  · rw [List.nil_append, List.splitOn_eq_singleton hname, List.splitOn_nil]
    rfl
  · rw [List.append_assoc, List.singleton_append, List.splitOn_append_cons_self,
      List.splitOn_append_cons_self, List.splitOn_eq_singleton hname, List.splitOn_nil,
      List.dropLast_concat]

theorem IsFront.tail {c : Char} {rest : List Char} (h : IsFront (c :: rest)) : IsFront rest := by
  obtain h | ⟨before, h⟩ := h
  · cases h
  · cases before with
    | nil => exact .inl (List.cons.inj h).2
    | cons d before => exact .inr ⟨before, (List.cons.inj h).2⟩

/-- A text without slashes is the last piece of the path that it is put to the end of. -/
theorem parts_append_name {start name : List Char} (hstart : IsFront start) (hslash : '/' ∉ name)
    (hdot : name ≠ ['.']) :
    parts ⟨String.ofList (start ++ name)⟩ = ((parts ⟨String.ofList start⟩).1,
      (parts ⟨String.ofList start⟩).2.dropLast ++ [name]) := by
  have hsplit := splitOn_append_name hstart hslash
  have hroot : ∀ body, name ≠ '/' :: body := fun body h => hslash (h ▸ List.mem_cons_self)
  by_cases hempty : start = []
  · subst hempty
    rw [List.nil_append] at hsplit ⊢
    rw [parts_of_relative hroot hdot fun body h =>
      hslash (h ▸ List.mem_cons_of_mem _ List.mem_cons_self), hsplit]
    rfl
  by_cases habsolute : ∃ body, start = '/' :: body
  · obtain ⟨body, rfl⟩ := habsolute
    have hbody := splitOn_append_name hstart.tail hslash
    simp only [parts, String.toList_ofList, List.cons_append, hbody]
  by_cases hcurrent : ∃ body, start = '.' :: '/' :: body
  · obtain ⟨body, rfl⟩ := hcurrent
    have hbody := splitOn_append_name hstart.tail.tail hslash
    have hne := List.splitOn_ne_nil '/' body
    simp only [parts, String.toList_ofList, List.cons_append, hbody,
      List.dropLast_cons_of_ne_nil hne]
  -- neither the start nor the whole text has a lead
  match start, hsplit with
  | [], _ => exact absurd rfl hempty
  | [c], _ =>
    obtain h | ⟨before, h⟩ := hstart
    · cases h
    · have hc : c = '/' := by
        have hlast := congrArg List.getLast? h
        simpa using hlast
      exact absurd ⟨[], by rw [hc]⟩ habsolute
  | c :: d :: rest, hsplit =>
    have hrelative : ∀ (after body : List Char), c :: d :: after ≠ '/' :: body := by
      rintro after body ⟨⟩
      exact habsolute ⟨_, rfl⟩
    have hother : ∀ (after body : List Char), c :: d :: after ≠ '.' :: '/' :: body := by
      rintro after body ⟨⟩
      exact hcurrent ⟨_, rfl⟩
    simp only [List.cons_append] at hsplit ⊢
    rw [parts_of_relative (hrelative _) (by simp) (hother _), hsplit,
      parts_of_relative (hrelative _) (by simp) (hother _)]

/-! ## Extensions -/

theorem fileName?_append_name {start name : List Char} (hstart : IsFront start)
    (hname : IsFileName name) :
    lastPiece? (parts ⟨String.ofList (start ++ name)⟩).2 =
        some ((parts ⟨String.ofList start⟩).2.dropLast, name) ∧
      fileName? ⟨String.ofList (start ++ name)⟩ = some name := by
  have hidle : isIdle name = false := by
    simp [isIdle, hname.nonempty, hname.dot]
  have hlast : lastPiece? (parts ⟨String.ofList (start ++ name)⟩).2 =
      some ((parts ⟨String.ofList start⟩).2.dropLast, name) := by
    rw [parts_append_name hstart hname.slash hname.dot]
    simp [lastPiece?, hidle]
  refine ⟨hlast, ?_⟩
  unfold fileName?
  rw [hlast]
  exact if_neg hname.dots

/-- The extension goes to the end of the file name's stem. -/
theorem setExtension_append_name {start name : List Char} {extension : String}
    (hstart : IsFront start) (hname : IsFileName name) (hextension : extension ≠ "")
    (hnew : IsFileName ((splitExtension name).1 ++ '.' :: extension.toList)) :
    setExtension ⟨String.ofList (start ++ name)⟩ extension =
      ⟨String.ofList (start ++ ((splitExtension name).1 ++ '.' :: extension.toList))⟩ := by
  obtain ⟨hlast, hfile⟩ := fileName?_append_name hstart hname
  have hparts := ofParts_parts
    ⟨String.ofList (start ++ ((splitExtension name).1 ++ '.' :: extension.toList))⟩
  rw [parts_append_name hstart hnew.slash hnew.dot] at hparts
  rw [parts_append_name hstart hname.slash hname.dot] at hlast
  unfold setExtension
  rw [hfile, parts_append_name hstart hname.slash hname.dot]
  dsimp only at hlast ⊢
  rw [hlast]
  simp only [if_neg hextension]
  exact hparts

theorem splitExtension_of_not_mem {name : List Char} (h : '.' ∉ name) :
    splitExtension name = (name, none) := by
  have htail : name.reverse.takeWhile (· ≠ '.') = name.reverse := by
    refine List.takeWhile_eq_self_iff.2 fun c hc => ?_
    simp only [ne_eq, decide_eq_true_eq]
    rintro rfl
    exact h (List.mem_reverse.1 hc)
  unfold splitExtension
  simp only [htail]
  simp

theorem splitExtension_append {stem extension : List Char} (hstem : stem ≠ [])
    (h : '.' ∉ extension) :
    splitExtension (stem ++ '.' :: extension) = (stem, some extension) := by
  have hpass : ∀ c ∈ extension.reverse, decide (c ≠ '.') = true := by
    intro c hc
    rw [decide_eq_true_eq]
    rintro rfl
    exact h (List.mem_reverse.1 hc)
  have htail : (stem ++ '.' :: extension).reverse.takeWhile (· ≠ '.') = extension.reverse := by
    rw [List.reverse_append, List.reverse_cons, List.append_assoc,
      List.takeWhile_append_of_pos hpass]
    simp
  have hlength : (stem ++ '.' :: extension).length - extension.reverse.length - 1 =
      stem.length := by
    simp only [List.length_append, List.length_cons, List.length_reverse]
    omega
  have hlong : extension.reverse.length ≠ (stem ++ '.' :: extension).length := by
    simp only [List.length_append, List.length_cons, List.length_reverse]
    omega
  unfold splitExtension
  simp only [htail, hlength, List.take_left', hstem, hlong, decide_false, Bool.or_false,
    Bool.false_eq_true, if_false, List.reverse_reverse]

/-- A segment of a name: neither empty nor with a slash or a dot in it. -/
structure IsSegment (segment : List Char) : Prop where
  nonempty : segment ≠ []
  slash : '/' ∉ segment
  dot : '.' ∉ segment

theorem IsSegment.isFileName {segment : List Char} (h : IsSegment segment) :
    IsFileName segment where
  slash := h.slash
  nonempty := h.nonempty
  dot := fun heq => h.dot (heq ▸ List.mem_cons_self)
  dots := fun heq => h.dot (heq ▸ List.mem_cons_self)

theorem IsSegment.append {segment extension : List Char} (h : IsSegment segment)
    (hslash : '/' ∉ extension) : IsFileName (segment ++ '.' :: extension) := by
  obtain ⟨c, rest, rfl⟩ := List.exists_cons_of_ne_nil h.nonempty
  have hc : c ≠ '.' := fun hc => h.dot (hc ▸ List.mem_cons_self)
  refine ⟨fun hmem => ?_, by simp, by simp, by simp [hc]⟩
  rcases List.mem_append.1 hmem with hmem | hmem
  · exact h.slash hmem
  · exact hslash (by simpa using hmem)

theorem join_name (path : Path) {name : List Char} (hname : '/' ∉ name) :
    path.join ⟨String.ofList name⟩ = ⟨String.ofList (lead path.text.toList ++ name)⟩ := by
  refine ext_toList ?_
  rw [join_toList, String.toList_ofList, String.toList_ofList]
  rw [isAbsolute, String.toList_ofList]
  cases name with
  | nil => rfl
  | cons c rest =>
    have hc : c ≠ '/' := fun hc => hname (hc ▸ List.mem_cons_self)
    simp [hc]

theorem setExtension_join (path : Path) {segment : List Char} (h : IsSegment segment)
    {extension : String} (hextension : extension ≠ "") (hslash : '/' ∉ extension.toList) :
    (path.join ⟨String.ofList segment⟩).setExtension extension =
      path.join ⟨String.ofList (segment ++ '.' :: extension.toList)⟩ := by
  have hsplit := splitExtension_of_not_mem h.dot
  have hnew : IsFileName ((splitExtension segment).1 ++ '.' :: extension.toList) := by
    rw [hsplit]
    exact h.append hslash
  rw [join_name path h.slash, join_name path (h.append hslash).slash,
    setExtension_append_name (isFront_lead _) h.isFileName hextension hnew, hsplit]

/-- The temporary sibling of a file is in the same directory and has a longer extension. -/
theorem temporary_join (path : Path) {segment : List Char} (h : IsSegment segment)
    {extension : List Char} (hdot : '.' ∉ extension) (hslash : '/' ∉ extension) :
    Path.temporary (path.join ⟨String.ofList (segment ++ '.' :: extension)⟩) =
      path.join ⟨String.ofList (segment ++ '.' :: (extension ++ ".tmp".toList))⟩ := by
  have hends := isFront_lead path.text.toList
  have hname := h.append hslash
  have hlong : '/' ∉ extension ++ ".tmp".toList := by simp [hslash]
  have hbare := h.append (List.not_mem_nil (a := '/'))
  have hold : extension? ⟨String.ofList (lead path.text.toList ++ (segment ++ '.' :: extension))⟩ =
      some (String.ofList extension) := by
    rw [extension?, (fileName?_append_name hends hname).2, Option.bind_some,
      splitExtension_append h.nonempty hdot, Option.map_some]
  have hsplit := splitExtension_append h.nonempty (List.not_mem_nil (a := '.'))
  rw [join_name path hname.slash, join_name path (h.append hlong).slash, Path.temporary, hold,
    Option.getD_some, withExtension, hold]
  have hkept : (lead path.text.toList ++ (segment ++ '.' :: extension)).take
      ((lead path.text.toList ++ (segment ++ '.' :: extension)).length - extension.length) =
        lead path.text.toList ++ (segment ++ ['.']) := by
    have htext : lead path.text.toList ++ (segment ++ '.' :: extension) =
        (lead path.text.toList ++ (segment ++ ['.'])) ++ extension := by simp
    rw [htext, List.length_append, Nat.add_sub_cancel, List.take_left]
  have hadded : (String.ofList extension ++ ".tmp").toList = extension ++ ".tmp".toList := by simp
  have hnew : IsFileName ((splitExtension (segment ++ ['.'])).1 ++
      '.' :: (String.ofList extension ++ ".tmp").toList) := by
    rw [hsplit, hadded]
    exact h.append hlong
  simp only [String.toList_ofList, String.length_ofList, hkept]
  rw [setExtension_append_name hends hbare (by simp) hnew, hsplit, hadded]

end Path

end Mixins
