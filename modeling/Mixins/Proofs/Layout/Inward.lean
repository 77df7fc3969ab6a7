import Mixins.Proofs.Layout
import Mixins.Proofs.Path.LastPiece

/-!
# Names that lead inwards

The file of a type is found by joining the segments of the type's name to a directory. A segment
that starts with a slash replaces all that stands before it, and where all segments are empty the
directory itself is found. All other names lead to a file that lies below the directory, and so does
its temporary sibling.

* `Inward` — the other names.
* `below_of_inward` — where their files lie.
* `inward_iff` — no more names lead to a file below every directory.
-/

namespace Mixins.Layout

open FileTree (Below names)
open Mixins.Path (IsSegment IsFileName lead)

variable {root : Path} {name : String}

/-- Whether no segment of the name starts with a slash, and not all of them are empty. -/
def Inward (name : String) : Prop :=
  (∀ segment ∈ segments name, segment.head? ≠ some '/') ∧ ∃ segment ∈ segments name, segment ≠ []

instance (name : String) : Decidable (Inward name) :=
  inferInstanceAs (Decidable (_ ∧ _))

theorem IsPlain.inward (h : IsPlain name) : Inward name := by
  refine ⟨fun segment hmem hhead => (h segment hmem).slash (List.mem_of_head? hhead), ?_⟩
  obtain ⟨segment, rest, hsegments⟩ := List.exists_cons_of_ne_nil (segments_ne_nil name)
  have hmem : segment ∈ segments name := hsegments ▸ List.mem_cons_self
  exact ⟨segment, hmem, (h segment hmem).nonempty⟩

/-! ## The joined segments -/

/-- The path that is made of the segments. -/
def joined (start : Path) (segments : List (List Char)) : Path :=
  segments.foldl (fun path segment => path.join ⟨String.ofList segment⟩) start

theorem mem_lead {c : Char} {text : List Char} (h : c ∈ text) : c ∈ lead text := by
  unfold lead
  split
  · exact h
  · exact List.mem_append_left _ h

theorem of_mem_lead {c : Char} {text : List Char} (hc : c ≠ '/') (h : c ∈ lead text) :
    c ∈ text := by
  unfold lead at h
  split at h
  · exact h
  · simpa [hc] using h

theorem isAbsolute_segment {segment : List Char} :
    Path.isAbsolute ⟨String.ofList segment⟩ = false ↔ segment.head? ≠ some '/' := by
  rw [Path.isAbsolute, String.toList_ofList, beq_eq_false_iff_ne]

/-- Segments that do not start with a slash leave the start of the path alone. -/
theorem joined_relative {ss : List (List Char)} (h : ∀ segment ∈ ss, segment.head? ≠ some '/')
    (start : Path) :
    (joined start ss).isAbsolute = start.isAbsolute ∧ ∀ c ≠ '/',
      (c ∈ (joined start ss).text.toList ↔
        c ∈ start.text.toList ∨ ∃ segment ∈ ss, c ∈ segment) := by
  induction ss generalizing start with
  | nil => exact ⟨rfl, fun c _ => by simp [joined]⟩
  | cons segment ss ih =>
    obtain ⟨hsegment, hrest⟩ := List.forall_mem_cons.1 h
    have hrelative := isAbsolute_segment.2 hsegment
    obtain ⟨habsolute, hmem⟩ := ih hrest (start.join ⟨String.ofList segment⟩)
    refine ⟨habsolute.trans (Path.isAbsolute_join start hrelative), fun c hc => ?_⟩
    have hlead : c ∈ lead start.text.toList ↔ c ∈ start.text.toList := ⟨of_mem_lead hc, mem_lead⟩
    have hstep := hmem c hc
    rw [Path.join_toList start hrelative, List.mem_append, hlead, String.toList_ofList] at hstep
    rw [List.exists_mem_cons_iff, ← or_assoc]
    exact hstep

/-- **The file of a name that leads inwards** is named by a segment. -/
theorem filePath_of_inward (h : Inward name) : ∃ (start : Path) (segment : List Char),
    IsSegment segment ∧ start.isAbsolute = false ∧ '.' ∉ start.text.toList ∧
      filePath name = start.join ⟨String.ofList (segment ++ '.' :: extension.toList)⟩ := by
  obtain ⟨habsolute, hmem⟩ := joined_relative h.1 Path.empty
  have hempty : ∀ c, c ∉ Path.empty.text.toList := by simp [Path.empty]
  have hrelative : Path.empty.isAbsolute = false := by decide
  rw [hrelative, Path.isAbsolute, beq_eq_false_iff_ne] at habsolute
  have hdot : '.' ∉ (joined Path.empty (segments name)).text.toList := by
    rw [hmem '.' (by decide)]
    rintro (hstart | ⟨segment, hsegment, hdot⟩)
    · exact hempty _ hstart
    · exact Path.not_mem_splitOn hsegment hdot
  have hname : ∃ c ∈ (joined Path.empty (segments name)).text.toList, c ≠ '/' := by
    obtain ⟨segment, hsegment, hne⟩ := h.2
    obtain ⟨c, rest, rfl⟩ := List.exists_cons_of_ne_nil hne
    have hc : c ≠ '/' := fun hc => h.1 _ hsegment (by rw [hc]; rfl)
    exact ⟨c, (hmem c hc).2 (.inr ⟨_, hsegment, List.mem_cons_self⟩), hc⟩
  have hfile := Path.setExtension_of_text extension habsolute hdot hname (by decide) (by decide)
  have hpath : filePath name = (joined Path.empty (segments name)).setExtension extension := rfl
  have hjoined : Path.mk (String.ofList (joined Path.empty (segments name)).text.toList) =
      joined Path.empty (segments name) := by
    rw [String.ofList_toList]
  rw [hjoined, ← hpath] at hfile
  exact hfile

theorem names_of_dotless {path : Path} (h : '.' ∉ path.text.toList) :
    ∀ n ∈ names path, n ≠ "." ∧ n ≠ ".." := by
  intro n hn
  obtain ⟨piece, hpiece, rfl⟩ := List.mem_map.1 hn
  have hmem := (List.mem_filter.1 hpiece).1
  have hdot : '.' ∉ piece := fun hdot => h (Path.mem_of_mem_splitOn hmem hdot)
  constructor
  · intro heq
    exact hdot (by rw [← String.toList_ofList (l := piece), heq]; exact List.mem_cons_self)
  · intro heq
    exact hdot (by rw [← String.toList_ofList (l := piece), heq]; exact List.mem_cons_self)

/-- A file name that is joined to a path below the directory. -/
theorem below_join_name {start : Path} {segment : List Char} (hsegment : IsSegment segment)
    (habsolute : start.isAbsolute = false) (hdot : '.' ∉ start.text.toList) (root : Path)
    {extension : List Char} (hslash : '/' ∉ extension) :
    ∃ own ≠ [], Below root
      ((root.join start).join ⟨String.ofList (segment ++ '.' :: extension)⟩) own := by
  have hfile := hsegment.append hslash
  have hrelative := isAbsolute_ofList hfile.slash
  refine ⟨names start ++ [String.ofList (segment ++ '.' :: extension)], by simp, ?_, ?_, ?_⟩
  · rw [Path.names_join _ hrelative, Path.names_join root habsolute,
      names_ofList hfile.slash hfile.nonempty, List.append_assoc]
  · rw [Path.isAbsolute_join _ hrelative, Path.isAbsolute_join root habsolute]
  · intro n hn
    rcases List.mem_append.1 hn with hn | hn
    · exact names_of_dotless hdot n hn
    · rw [List.mem_singleton.1 hn]
      exact ordinary_ofList hfile

/-- **A name that leads inwards** has its file and the temporary sibling below the directory. -/
theorem below_of_inward (h : Inward name) (root : Path) :
    (∃ own ≠ [], Below root (fileIn root name) own) ∧
      ∃ own ≠ [], Below root (Path.temporary (fileIn root name)) own := by
  obtain ⟨start, segment, hsegment, habsolute, hdot, hpath⟩ := filePath_of_inward h
  have hfile : '/' ∉ segment ++ '.' :: extension.toList := (hsegment.append (by decide)).slash
  have hin : fileIn root name =
      (root.join start).join ⟨String.ofList (segment ++ '.' :: extension.toList)⟩ := by
    rw [fileIn, hpath, Path.join_join root habsolute (isAbsolute_ofList hfile)]
  rw [hin, Path.temporary_join _ hsegment (by decide) (by decide)]
  exact ⟨below_join_name hsegment habsolute hdot root (by decide),
    below_join_name hsegment habsolute hdot root (by decide)⟩

/-! ## Other names -/

theorem isAbsolute_joined {ss : List (List Char)} {start : Path}
    (h : start.isAbsolute = true ∨ ∃ segment ∈ ss, segment.head? = some '/') :
    (joined start ss).isAbsolute = true := by
  induction ss generalizing start with
  | nil => simpa [joined] using h
  | cons segment ss ih =>
    refine ih ?_
    by_cases hsegment : segment.head? = some '/'
    · left
      have habsolute : Path.isAbsolute ⟨String.ofList segment⟩ = true := by
        rw [Path.isAbsolute, String.toList_ofList, hsegment, beq_self_eq_true]
      simp only [Path.join, habsolute, if_true]
    · rw [Path.isAbsolute_join start (isAbsolute_segment.2 hsegment)]
      refine h.imp_right ?_
      rintro ⟨other, hmem, hother⟩
      rcases List.mem_cons.1 hmem with rfl | hmem
      · exact absurd hother hsegment
      · exact ⟨other, hmem, hother⟩

theorem isAbsolute_setExtension {path : Path} (h : path.isAbsolute = true) (extension : String) :
    (path.setExtension extension).isAbsolute = true := by
  unfold Path.setExtension
  dsimp only
  split
  · simp [Path.parts_of_absolute h, Path.ofParts, Path.isAbsolute]
  · exact h

theorem joined_nil {ss : List (List Char)} (h : ∀ segment ∈ ss, segment = []) :
    joined Path.empty ss = Path.empty := by
  induction ss with
  | nil => rfl
  | cons segment ss ih =>
    obtain ⟨rfl, hrest⟩ := List.forall_mem_cons.1 h
    exact ih hrest

theorem empty_join (path : Path) : Path.empty.join path = path := by
  unfold Path.join
  split
  · rfl
  · exact congrArg Path.mk String.empty_append

/-- **No more names lead inwards**: of every other name, there is a directory below which its file
does not lie. -/
theorem inward_iff : Inward name ↔ ∀ root, ∃ own ≠ [], Below root (fileIn root name) own := by
  refine ⟨fun h root => (below_of_inward h root).1, fun h => ?_⟩
  obtain ⟨own, hown, hbelow⟩ := h Path.empty
  have hpath : filePath name = (joined Path.empty (segments name)).setExtension extension := rfl
  rw [fileIn, empty_join, hpath] at hbelow
  constructor
  · intro segment hsegment hhead
    have habsolute := hbelow.absolute
    rw [isAbsolute_setExtension (isAbsolute_joined (.inr ⟨segment, hsegment, hhead⟩))] at habsolute
    exact absurd habsolute (by decide)
  · by_contra hempty
    have hnil : ∀ segment ∈ segments name, segment = [] := by
      intro segment hsegment
      by_contra hne
      exact hempty ⟨segment, hsegment, hne⟩
    have hway := hbelow.way
    have hnowhere : names (Path.empty.setExtension extension) = [] ∧ names Path.empty = [] := by
      decide
    rw [joined_nil hnil, hnowhere.1, hnowhere.2, List.nil_append] at hway
    exact hown hway.symm

end Mixins.Layout
