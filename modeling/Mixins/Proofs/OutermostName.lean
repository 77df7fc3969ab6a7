import Mathlib.Data.List.TakeWhile
import Mixins.Proofs.NestedName

/-!
# Names of outermost types

* `package_append_simple` — a name is its package and its simple name.
* `outermost_outermost` — the outermost type around an outermost type is itself.
* `chain_of_isOutermost` — from an outermost type there is no way to go.
-/

namespace Mixins

open Mixins.Text

namespace Name

namespace Chars

theorem not_mem_of_afterLast_eq_none {mark : Char} {s : List Char}
    (h : afterLast mark s = none) : mark ∉ s := by
  induction s with
  | nil => simp
  | cons c s ih =>
    unfold afterLast at h
    cases hs : afterLast mark s with
    | some rest => simp [hs] at h
    | none =>
      simp only [hs, ite_eq_right_iff, reduceCtorEq, imp_false] at h
      simp [ih hs, Ne.symm h]

theorem afterLast_eq_some {mark : Char} {s tail : List Char} (h : afterLast mark s = some tail) :
    ∃ start, s = start ++ mark :: tail ∧ mark ∉ tail := by
  induction s with
  | nil => simp [afterLast] at h
  | cons c s ih =>
    unfold afterLast at h
    cases hs : afterLast mark s with
    | some rest =>
      simp only [hs, Option.some.injEq] at h
      obtain ⟨start, rfl, hnot⟩ := ih (h ▸ hs)
      exact ⟨c :: start, rfl, hnot⟩
    | none =>
      simp only [hs, Option.ite_none_right_eq_some, Option.some.injEq] at h
      obtain ⟨rfl, rfl⟩ := h
      exact ⟨[], rfl, not_mem_of_afterLast_eq_none hs⟩

theorem dot_not_mem_simple (name : List Char) : '.' ∉ simple name := by
  unfold simple
  cases h : afterLast '.' name with
  | none => exact not_mem_of_afterLast_eq_none h
  | some tail =>
    obtain ⟨-, -, hnot⟩ := afterLast_eq_some h
    exact hnot

/-- A name is split after its last dot. -/
theorem exists_append_simple (name : List Char) :
    ∃ start, name = start ++ simple name ∧ simple start = [] := by
  unfold simple
  cases h : afterLast '.' name with
  | none => exact ⟨[], rfl, rfl⟩
  | some tail =>
    obtain ⟨start, hname, -⟩ := afterLast_eq_some h
    refine ⟨start ++ ['.'], by simpa using hname, ?_⟩
    rw [afterLast_append start List.not_mem_nil]
    rfl

theorem package_append {start : List Char} (h : simple start = []) {s : List Char}
    (hs : '.' ∉ s) : simple (start ++ s) = s ∧ package (start ++ s) = start := by
  have hsimple : simple (start ++ s) = s := by rw [simple_append start hs, h, List.nil_append]
  refine ⟨hsimple, ?_⟩
  rw [package, hsimple, List.length_append, Nat.add_sub_cancel]
  exact List.take_left

theorem package_append_simple (name : List Char) : package name ++ simple name = name := by
  obtain ⟨start, hname, hstart⟩ := exists_append_simple name
  have hpackage := (package_append hstart (dot_not_mem_simple name)).2
  rw [← hname] at hpackage
  rw [hpackage]
  exact hname.symm

theorem outermost_outermost (name : List Char) : outermost (outermost name) = outermost name := by
  obtain ⟨start, hname, hstart⟩ := exists_append_simple name
  have hpackage := (package_append hstart (dot_not_mem_simple name)).2
  rw [← hname] at hpackage
  have hdot := dot_not_mem_simple name
  unfold outermost
  rw [hpackage]
  cases hs : simple name with
  | nil =>
    obtain ⟨hsimple, hpackage'⟩ := package_append (s := []) hstart List.not_mem_nil
    rw [hsimple, hpackage']
  | cons c rest =>
    rw [hs] at hdot
    have hdot' : '.' ∉ c :: rest.takeWhile (· ≠ '$') := by
      intro hmem
      refine hdot (List.mem_cons.2 ((List.mem_cons.1 hmem).imp_right fun h => ?_))
      exact (List.takeWhile_prefix _).subset h
    obtain ⟨hsimple, hpackage'⟩ := package_append hstart hdot'
    rw [hsimple, hpackage']
    have htake : (rest.takeWhile (· ≠ '$')).takeWhile (· ≠ '$') = rest.takeWhile (· ≠ '$') := by
      refine List.takeWhile_eq_self_iff.2 fun x hx => ?_
      have hp := List.mem_takeWhile_imp hx
      exact hp
    simp only [htake]

/-- A name without dollar signs is that of an outermost type. -/
theorem outermost_of_not_mem {name : List Char} (h : '$' ∉ name) : outermost name = name := by
  have hwhole := package_append_simple name
  unfold outermost
  cases hs : simple name with
  | nil => rwa [hs] at hwhole
  | cons c rest =>
    rw [hs] at hwhole
    have hmark : ∀ x ∈ rest, (decide (x ≠ '$')) = true := by
      intro x hx
      refine decide_eq_true fun hx' => h ?_
      rw [← hwhole, ← hx']
      exact List.mem_append_right _ (List.mem_cons_of_mem _ hx)
    dsimp only
    rw [List.takeWhile_eq_self_iff.2 hmark, hwhole]

theorem chain_of_outermost {name : List Char} (h : outermost name = name) : chain name = [] := by
  have hsimple := List.append_cancel_left (h.trans (package_append_simple name).symm)
  unfold chain
  cases hs : simple name with
  | nil => simp
  | cons c rest =>
    simp only [hs, List.cons.injEq, true_and] at hsimple
    have hdrop : rest.dropWhile (· ≠ '$') = [] := by
      have hsplit := List.takeWhile_append_dropWhile (p := (· ≠ '$')) (l := rest)
      rw [hsimple] at hsplit
      simpa using hsplit
    simp only [List.tail_cons, hdrop]

end Chars

theorem isOutermost_iff {name : String} : isOutermost name = true ↔ outermost name = name := by
  rw [isOutermost, beq_iff_eq]

theorem outermost_of_not_mem {name : String} (h : '$' ∉ name.toList) : outermost name = name := by
  rw [outermost, Chars.outermost_of_not_mem h, String.ofList_toList]

theorem outermost_outermost (name : String) : outermost (outermost name) = outermost name := by
  simp only [outermost, String.toList_ofList, Chars.outermost_outermost]

theorem chain_of_isOutermost {name : String} (h : isOutermost name = true) : chain name = [] := by
  rw [isOutermost_iff, outermost, ← String.toList_inj, String.toList_ofList] at h
  rw [chain, Chars.chain_of_outermost h, List.map_nil]

end Name

end Mixins
