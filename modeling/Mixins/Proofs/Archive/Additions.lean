import Mathlib.Data.List.Induction
import Mixins.Archive
import Mixins.Proofs.Text.Occurrence
import Mixins.Proofs.Wire.Bounded

/-!
# Archives as ordered maps

An archive that has been made by additions keeps for each path what was added under it last, and its
entries stand in the order in which those last additions were made. It may be written to bytes and
read back in between as often as one likes: what is read back is the same archive.

* `Records` — what an archive holds, seen from the additions; `Records.add` for one more.
* `Records.find?_eq_some_iff`, `Records.entryEndingIn?_eq_some_iff` — what is looked up in it.
* `reload_eq_ok_iff` — which archives can be written, and what is read back.
* `run_records` — all that an archive has gone through.
* `run_orderedMap` — an archive is an ordered map through any run.
-/

namespace Mixins.Archive

open Wire

variable {a a' : Archive} {added : List Entry} {e x : Entry} {path other : String}

/-! ## Last additions -/

/-- Whether the addition is one of these, and none under its path comes after it. -/
def IsLast (added : List Entry) (e : Entry) : Prop :=
  ∃ later, e :: later <:+ added ∧ e.path ∉ later.map (·.path)

/-- Whether from some addition on there are some under `other` and none under `path`. -/
def LastBefore (added : List Entry) (path other : String) : Prop :=
  ∃ later, later <:+ added ∧ path ∉ later.map (·.path) ∧ other ∈ later.map (·.path)

theorem isLast_concat : IsLast (added ++ [e]) x ↔ IsLast added x ∧ x.path ≠ e.path ∨ x = e := by
  constructor
  · rintro ⟨later, hsuffix, hlast⟩
    rcases List.suffix_concat_iff.1 hsuffix with hnil | ⟨start, heq, hstart⟩
    · cases hnil
    · cases start with
      | nil => exact .inr (List.cons.inj heq).1
      | cons y start =>
        rw [List.cons_append] at heq
        obtain ⟨rfl, rfl⟩ := List.cons.inj heq
        rw [List.map_append, List.mem_append, not_or] at hlast
        exact .inl ⟨⟨start, hstart, hlast.1⟩, by simpa using hlast.2⟩
  · rintro (⟨⟨later, hsuffix, hlast⟩, hne⟩ | rfl)
    · refine ⟨later ++ [e], List.suffix_concat_iff.2 (.inr ⟨x :: later, rfl, hsuffix⟩), ?_⟩
      simpa using ⟨by simpa using hlast, hne⟩
    · exact ⟨[], List.suffix_append added [x], List.not_mem_nil⟩

theorem IsLast.mem (h : IsLast added e) : e ∈ added := by
  obtain ⟨later, hsuffix, -⟩ := h
  exact hsuffix.subset List.mem_cons_self

/-- Under each path of the additions there is a last one. -/
theorem exists_isLast (h : path ∈ added.map (·.path)) : ∃ e, e.path = path ∧ IsLast added e := by
  induction added using List.reverseRecOn with
  | nil => cases h
  | append_singleton added e ih =>
    by_cases hpath : path = e.path
    · exact ⟨e, hpath.symm, isLast_concat.2 (.inr rfl)⟩
    · have hbefore : path ∈ added.map (·.path) := by
        rw [List.map_append, List.mem_append] at h
        exact h.resolve_right (by simpa using hpath)
      obtain ⟨x, rfl, hx⟩ := ih hbefore
      exact ⟨x, rfl, isLast_concat.2 (.inl ⟨hx, hpath⟩)⟩

theorem LastBefore.concat (h : LastBefore added path other) (hne : path ≠ e.path) :
    LastBefore (added ++ [e]) path other := by
  obtain ⟨later, hsuffix, hnone, hsome⟩ := h
  refine ⟨later ++ [e], List.suffix_concat_iff.2 (.inr ⟨later, rfl, hsuffix⟩), ?_, ?_⟩
  · simpa using ⟨by simpa using hnone, hne⟩
  · rw [List.map_append]
    exact List.mem_append_left _ hsome

/-- The last of all additions comes after those under other paths. -/
theorem lastBefore_concat (hne : path ≠ e.path) : LastBefore (added ++ [e]) path e.path :=
  ⟨[e], List.suffix_append added [e], by simpa using hne, List.mem_singleton_self _⟩

theorem LastBefore.ne (h : LastBefore added path other) : path ≠ other := by
  rintro rfl
  obtain ⟨later, -, hnone, hsome⟩ := h
  exact hnone hsome

theorem LastBefore.asymm (h : LastBefore added path other) : ¬ LastBefore added other path := by
  rintro ⟨later', hsuffix', hnone', hsome'⟩
  obtain ⟨later, hsuffix, hnone, hsome⟩ := h
  rcases List.suffix_or_suffix_of_suffix hsuffix hsuffix' with hshort | hshort
  · exact hnone' ((hshort.map _).subset hsome)
  · exact hnone ((hshort.map _).subset hsome')

/-! ## What an archive holds -/

/-- Whether the archive has the last additions, in the order in which they were made. -/
structure Records (added : List Entry) (a : Archive) : Prop where
  version : a.version = currentVersion
  mem_iff : ∀ e, e ∈ a.entries ↔ IsLast added e
  order : a.entries.Pairwise fun e e' => LastBefore added e.path e'.path

theorem records_empty : Records [] empty where
  version := rfl
  mem_iff _ := iff_of_false List.not_mem_nil fun h => nomatch h.mem
  order := .nil

namespace Records

/-- **One more addition** takes the place of the one before it under its path, and comes last. -/
theorem add (h : Records added a) (e : Entry) :
    Records (added ++ [e]) (a.add e.path e.modified e.content) where
  version := h.version
  mem_iff x := by
    rw [isLast_concat, ← h.mem_iff]
    simp [Archive.add]
  order := by
    have hkept : ∀ x ∈ a.entries.filter (·.path ≠ e.path), x.path ≠ e.path :=
      fun x hx => of_decide_eq_true (List.mem_filter.1 hx).2
    refine List.pairwise_append.2 ⟨?_, List.pairwise_singleton _ _, fun x hx y hy => ?_⟩
    · exact (h.order.filter _).imp_of_mem fun hx _ hbefore => hbefore.concat (hkept _ hx)
    · rw [List.mem_singleton] at hy
      subst hy
      exact lastBefore_concat (hkept x hx)

variable (h : Records added a)

include h

theorem distinct : (a.entries.map (·.path)).Nodup :=
  List.pairwise_map.2 (h.order.imp LastBefore.ne)

theorem find?_eq_some_iff : a.find? path = some e ↔ e.path = path ∧ IsLast added e := by
  rw [← h.mem_iff]
  constructor
  · intro hfound
    exact ⟨by simpa using List.find?_some hfound, List.mem_of_find?_eq_some hfound⟩
  · rintro ⟨rfl, hmem⟩
    have hsome : (a.find? e.path).isSome = true :=
      List.find?_isSome.2 ⟨e, hmem, decide_eq_true rfl⟩
    obtain ⟨x, hx⟩ := Option.isSome_iff_exists.1 hsome
    have hpath : x.path = e.path := by simpa using List.find?_some hx
    rw [hx, List.inj_on_of_nodup_map h.distinct (List.mem_of_find?_eq_some hx) hmem hpath]

theorem mem_paths_iff : path ∈ a.entries.map (·.path) ↔ path ∈ added.map (·.path) := by
  constructor
  · intro hpath
    obtain ⟨e, he, rfl⟩ := List.mem_map.1 hpath
    exact List.mem_map_of_mem ((h.mem_iff e).1 he).mem
  · intro hpath
    obtain ⟨e, rfl, he⟩ := exists_isLast hpath
    exact List.mem_map_of_mem ((h.mem_iff e).2 he)

theorem find?_eq_none_iff : a.find? path = none ↔ path ∉ added.map (·.path) := by
  rw [← h.mem_paths_iff]
  simp [find?]

theorem entryEndingIn?_eq_none_iff {ending : String} : a.entryEndingIn? ending = none ↔
    ∀ path ∈ added.map (·.path), ¬ ending.toList <:+ path.toList := by
  simp only [← h.mem_paths_iff, entryEndingIn?, List.find?_eq_none, Text.isSome_dropWordEnd_iff,
    List.forall_mem_map]

/-- The entry that is found first was added last before all others that end so. -/
theorem of_entryEndingIn? {ending : String} (hfound : a.entryEndingIn? ending = some e) :
    ending.toList <:+ e.path.toList ∧ IsLast added e ∧
      ∀ path ∈ added.map (·.path), path ≠ e.path → ending.toList <:+ path.toList →
        LastBefore added e.path path := by
  obtain ⟨hends, before, after, hentries, hbefore⟩ := List.find?_eq_some_iff_append.1 hfound
  refine ⟨Text.isSome_dropWordEnd_iff.1 hends,
    (h.mem_iff e).1 (List.mem_of_find?_eq_some hfound), fun path hpath hne hpathEnds => ?_⟩
  obtain ⟨x, hx, rfl⟩ := List.mem_map.1 (h.mem_paths_iff.2 hpath)
  rw [hentries, List.mem_append, List.mem_cons] at hx
  have horder := h.order
  rw [hentries] at horder
  rcases hx with hx | rfl | hx
  · have hnot := hbefore x hx
    rw [Text.isSome_dropWordEnd_iff.2 hpathEnds] at hnot
    cases hnot
  · exact absurd rfl hne
  · exact (List.pairwise_cons.1 (List.pairwise_append.1 horder).2.1).1 x hx

theorem entryEndingIn?_eq_some_iff {ending : String} : a.entryEndingIn? ending = some e ↔
    ending.toList <:+ e.path.toList ∧ IsLast added e ∧
      ∀ path ∈ added.map (·.path), path ≠ e.path → ending.toList <:+ path.toList →
        LastBefore added e.path path := by
  refine ⟨h.of_entryEndingIn?, fun ⟨hends, hlast, hfirst⟩ => ?_⟩
  cases hfound : a.entryEndingIn? ending with
  | none =>
    exact absurd hends (h.entryEndingIn?_eq_none_iff.1 hfound _ (List.mem_map_of_mem hlast.mem))
  | some x =>
    obtain ⟨hxends, hxlast, hxfirst⟩ := h.of_entryEndingIn? hfound
    by_cases hpath : x.path = e.path
    · have hx := (h.mem_iff x).2 hxlast
      rw [List.inj_on_of_nodup_map h.distinct hx ((h.mem_iff e).2 hlast) hpath]
    · -- each would have been added last before the other
      have hbefore := hxfirst _ (List.mem_map_of_mem hlast.mem) (Ne.symm hpath) hends
      exact absurd (hfirst _ (List.mem_map_of_mem hxlast.mem) hpath hxends) hbefore.asymm

end Records

/-! ## Reading back what was written -/

theorem Entry.reads (depth : Nat) : Reads (Entry.encode depth) (Entry.decode depth) := by
  cases depth with
  | zero => exact fun _ _ h => nomatch h
  | succ depth =>
    intro e bytes h rest
    simp only [encode, bind_eq_ok, pure_eq_ok] at h
    obtain ⟨path, hpath, content, hcontent, rfl⟩ := h
    simp only [decode, List.append_assoc, ok_bind, reads_text _ _ hpath, decodeInt64_int64,
      reads_bytes _ _ hcontent]

theorem reads (depth : Nat) : Reads (encode depth) (decode depth) := by
  cases depth with
  | zero => exact fun _ _ h => nomatch h
  | succ depth =>
    intro a bytes h rest
    simp only [encode, bind_eq_ok, pure_eq_ok] at h
    obtain ⟨entries, hentries, rfl⟩ := h
    simp only [decode, List.append_assoc, ok_bind, decodeWord32_word32,
      reads_sequence (Entry.reads depth) _ _ hentries]

/-- Whether no length in the archive is too great to be written. -/
def Fits (a : Archive) : Prop :=
  a.entries.length ≤ maxLength ∧ ∀ e ∈ a.entries,
    e.path.utf8ByteSize ≤ maxLength ∧ e.content.length ≤ maxLength

instance (a : Archive) : Decidable a.Fits := inferInstanceAs (Decidable (_ ∧ _))

theorem Entry.succeeds_encode (depth : Nat) (e : Entry) :
    Succeeds (Entry.encode (depth + 1) e) ↔
      e.path.utf8ByteSize ≤ maxLength ∧ e.content.length ≤ maxLength := by
  simp only [encode, succeeds_bind, succeeds_pure, and_true, exists_and_right, exists_eq_ok,
    succeeds_text, succeeds_bytes, textLengths, List.forall_mem_singleton]

/-- The entries are containers in a container. -/
theorem succeeds_encode {depth : Nat} (hdepth : 2 ≤ depth) (a : Archive) :
    Succeeds (encode depth a) ↔ a.Fits := by
  obtain ⟨depth, rfl⟩ := Nat.exists_eq_add_of_le' hdepth
  simp only [encode, Wire.sequence, succeeds_bind, succeeds_pure, and_true, exists_and_right,
    exists_eq_ok, succeeds_length, succeeds_items, Entry.succeeds_encode, Fits]

theorem toBytes_succeeds_iff (a : Archive) : Succeeds a.toBytes ↔ a.Fits := by
  rw [← succeeds_encode (by decide : 2 ≤ maxDepth)]
  exact exists_congr fun content => mapError_eq_ok

/-- The archive that is read back from the bytes to which it was written. -/
def reload (a : Archive) : Except FormatError Archive := do
  ofBytes (← a.toBytes)

/-- **An archive that can be written** is read back as it was. -/
theorem reload_eq_ok_iff (h : a.version = currentVersion) :
    a.reload = .ok a' ↔ a.Fits ∧ a' = a := by
  rw [← toBytes_succeeds_iff]
  have hback : ∀ content, a.toBytes = .ok content → ofBytes content = .ok a := by
    intro content hcontent
    have hread := reads maxDepth a content (mapError_eq_ok.1 hcontent) []
    rw [List.append_nil] at hread
    have hcomplete : complete (decode maxDepth) content = .ok a := by
      simp [complete, hread, ok_bind]
    simp only [ofBytes, hcomplete, Except.mapError, ok_bind, if_pos h]
  rw [reload, bind_eq_ok]
  constructor
  · rintro ⟨content, hcontent, hread⟩
    rw [hback content hcontent] at hread
    exact ⟨⟨content, hcontent⟩, (Except.ok.inj hread).symm⟩
  · rintro ⟨⟨content, hcontent⟩, rfl⟩
    exact ⟨content, hcontent, hback content hcontent⟩

/-! ## Runs -/

/-- What may be done with an archive. -/
inductive Step where
  | add (e : Entry)
  | reload

def step (a : Archive) : Step → Except FormatError Archive
  | .add e => .ok (a.add e.path e.modified e.content)
  | .reload => a.reload

/-- A new archive after some steps. -/
def run (steps : List Step) : Except FormatError Archive := steps.foldlM step empty

/-- What is added in some steps. -/
def additions : List Step → List Entry
  | [] => []
  | .add e :: steps => e :: additions steps
  | .reload :: steps => additions steps

/-- What an archive holds after some steps that all succeed. -/
theorem Records.foldlM_step {steps : List Step} (h : Records added a)
    (hrun : steps.foldlM step a = .ok a') : Records (added ++ additions steps) a' := by
  induction steps generalizing added a with
  | nil =>
    cases hrun
    rwa [additions, List.append_nil]
  | cons s steps ih =>
    rw [List.foldlM_cons, bind_eq_ok] at hrun
    obtain ⟨next, hnext, hrest⟩ := hrun
    cases s with
    | add e =>
      cases hnext
      rw [additions, List.append_cons]
      exact ih (h.add e) hrest
    | reload =>
      obtain ⟨-, rfl⟩ := (reload_eq_ok_iff h.version).1 hnext
      exact ih h hrest

/-- **A run** leaves the last of its additions. -/
theorem run_records {steps : List Step} (h : run steps = .ok a) : Records (additions steps) a :=
  records_empty.foldlM_step h

/-- **An archive is an ordered map** through any run of additions and of being written and read
back. Its paths are distinct and stand in the order of their last additions. Under a path there is
the last addition, and by an ending of paths the one is found whose path was the first to get its
last addition. Whenever the archive can be written, it is read back as it is. -/
theorem run_orderedMap {steps : List Step} (h : run steps = .ok a) :
    let added := additions steps
    ((a.entries.map (·.path)).Nodup ∧
      a.entries.Pairwise fun e e' => LastBefore added e.path e'.path) ∧
    ((∀ path, a.find? path = none ↔ path ∉ added.map (·.path)) ∧
      ∀ path e, a.find? path = some e ↔ e.path = path ∧ IsLast added e) ∧
    ((∀ ending, a.entryEndingIn? ending = none ↔
        ∀ path ∈ added.map (·.path), ¬ ending.toList <:+ path.toList) ∧
      ∀ ending e, a.entryEndingIn? ending = some e ↔
        ending.toList <:+ e.path.toList ∧ IsLast added e ∧
          ∀ path ∈ added.map (·.path), path ≠ e.path → ending.toList <:+ path.toList →
            LastBefore added e.path path) ∧
    ∀ a', a.reload = .ok a' ↔ a.Fits ∧ a' = a := by
  have hrecords := run_records h
  exact ⟨⟨hrecords.distinct, hrecords.order⟩,
    ⟨fun _ => hrecords.find?_eq_none_iff, fun _ _ => hrecords.find?_eq_some_iff⟩,
    ⟨fun _ => hrecords.entryEndingIn?_eq_none_iff,
      fun _ _ => hrecords.entryEndingIn?_eq_some_iff⟩,
    fun _ => reload_eq_ok_iff hrecords.version⟩

/-- An entry is replaced, after the archive was read back, by one with a negative time. -/
def replacing : List Step :=
  [.add ⟨"p/A.ctype", 5, [1]⟩, .add ⟨"q/A.ctype", 7, []⟩, .reload, .add ⟨"p/A.ctype", -9, [255]⟩,
    .reload]

def replaced : Archive :=
  ⟨currentVersion, [⟨"q/A.ctype", 7, []⟩, ⟨"p/A.ctype", -9, [255]⟩]⟩

/-- The replaced entry has gone behind the other one, which is now found by the ending of both. -/
theorem run_orderedMap_replacing :
    run replacing = .ok replaced ∧ replaced.find? "p/A.ctype" = some ⟨"p/A.ctype", -9, [255]⟩ ∧
      replaced.entryEndingIn? "A.ctype" = some ⟨"q/A.ctype", 7, []⟩ ∧
      replaced.reload = .ok replaced := by
  have hrun : run replacing = .ok replaced := by decide +kernel
  obtain ⟨-, ⟨-, hfound⟩, ⟨-, hending⟩, hreload⟩ := run_orderedMap hrun
  have hpaths : ∀ path ∈ (additions replacing).map (·.path), path ≠ "q/A.ctype" →
      path = "p/A.ctype" := by decide
  refine ⟨hrun, (hfound _ _).2 ⟨rfl, [], by decide, by decide⟩, (hending _ _).2 ?_,
    (hreload _).2 ⟨by decide +kernel, rfl⟩⟩
  refine ⟨by decide, ⟨[⟨"p/A.ctype", -9, [255]⟩], by decide, by decide⟩, fun path hpath hne _ => ?_⟩
  obtain rfl := hpaths path hpath hne
  exact ⟨[⟨"p/A.ctype", -9, [255]⟩], by decide, by decide, by decide⟩

end Mixins.Archive
