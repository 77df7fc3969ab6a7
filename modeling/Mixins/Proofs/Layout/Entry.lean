import Mathlib.Data.List.Induction
import Mixins.Proofs.Layout.Inward

/-!
# Directories and archives

A plain name's file has the same path below a module's directory as its entry has in an archive.

* `filePath_eq` — the path of the file is that of the entry.
-/

namespace Mixins.Layout

open Mixins.Path (IsSegment lead)

variable {name : String}

theorem intercalate_concat (ss : List (List Char)) (last : List Char) :
    ['/'].intercalate (ss ++ [last]) = ['/'].intercalate (ss ++ [[]]) ++ last := by
  rw [Path.intercalate_append ss (List.cons_ne_nil _ _), List.intercalate_singleton]

/-- Before what is joined to segments, they stand with slashes after them. -/
theorem lead_joined {ss : List (List Char)} (h : ∀ segment ∈ ss, IsSegment segment) :
    lead (joined Path.empty ss).text.toList = ['/'].intercalate (ss ++ [[]]) := by
  induction ss using List.reverseRecOn with
  | nil => rfl
  | append_singleton ss last ih =>
    obtain ⟨hbefore, hlast⟩ := List.forall_mem_append.1 h
    have hsegment := hlast last (by simp)
    have hjoined : (joined Path.empty (ss ++ [last])).text.toList =
        ['/'].intercalate (ss ++ [[]]) ++ last := by
      rw [joined, List.foldl_concat, ← joined,
        Path.join_toList _ (isAbsolute_ofList hsegment.slash), ih hbefore, String.toList_ofList]
    obtain ⟨start, c, rfl⟩ := (List.eq_nil_or_concat last).resolve_left hsegment.nonempty
    have hc : c ≠ '/' := fun hc => hsegment.slash (by simp [hc])
    have hafter : ['/'].intercalate (ss ++ ([start ++ [c]] ++ [[]])) =
        ['/'].intercalate (ss ++ [[]]) ++ (start ++ [c] ++ ['/']) := by
      rw [Path.intercalate_append ss (by simp)]
      simp
    rw [hjoined, List.concat_eq_append, List.append_assoc ss, hafter, ← List.append_assoc,
      Path.lead_concat, if_neg hc]
    simp

/-- Dots that are turned into slashes. -/
theorem map_dots {ss : List (List Char)} (h : ∀ segment ∈ ss, IsSegment segment) :
    (['.'].intercalate ss).map (fun c => if c = '.' then '/' else c) = ['/'].intercalate ss := by
  have hsame : ∀ segment ∈ ss, segment.map (fun c => if c = '.' then '/' else c) = segment := by
    intro segment hsegment
    have hdot : ∀ c ∈ segment, (if c = '.' then '/' else c) = c := by
      intro c hc
      rw [if_neg]
      rintro rfl
      exact (h segment hsegment).dot hc
    rw [List.map_congr_left hdot, List.map_id']
  induction ss with
  | nil => rfl
  | cons segment ss ih =>
    obtain ⟨hsegment, hrest⟩ := List.forall_mem_cons.1 hsame
    rcases ss with _ | ⟨next, ss⟩
    · simpa using hsegment
    · rw [List.intercalate_cons_of_ne_nil (List.cons_ne_nil _ _),
        List.intercalate_cons_of_ne_nil (List.cons_ne_nil _ _), List.map_append, List.map_append,
        hsegment, ih (List.forall_mem_cons.1 h).2 hrest]
      rfl

/-- **The path of the file** is that of the entry. -/
theorem filePath_eq (h : IsPlain name) : filePath name = ⟨entryPath name⟩ := by
  have hplain := h _ (getLast_mem (segments_ne_nil name))
  have hrelative := isAbsolute_ofList (hplain.append (by decide : '/' ∉ extension.toList)).slash
  have hbefore : ∀ segment ∈ (segments name).dropLast, IsSegment segment :=
    fun _ hmem => h _ ((List.dropLast_sublist _).subset hmem)
  have hjoined : (Name.outermost name).toList = ['.'].intercalate (segments name) :=
    (List.intercalate_splitOn '.').symm
  refine Path.ext_toList ?_
  rw [filePath_join h, Path.join_toList _ hrelative, ← joined, lead_joined hbefore, entryPath,
    hjoined, map_dots h, String.toList_ofList, String.toList_append, String.toList_append,
    String.toList_ofList, ← List.append_assoc, ← intercalate_concat,
    dropLast_append (segments_ne_nil name)]
  simp

end Mixins.Layout
