import Mixins.Proofs.Layout.Entry
import Mixins.Proofs.Merge.Alike
import Mixins.Proofs.OutputRoot.Modules

/-!
# Targets that do not meet

Two targets that are no mixins of each other are merged one after the other, and it does not matter
which comes first: the reports are the same, and so are all files and all that the pool answers
later. That one of them fails, or both, makes no difference.

What each of them reads is not touched by the other's write, as long as all names can be looked up.
A name that is too long is not found while its directory is missing, and is refused when it is
there.

* `Independent` — the targets and their mixins, and where the files lie.
* `prepare_after` — after the other target the pool has the same types for the work on this one.
* `mergeMixins_comm` — the order does not matter.
* `mergeMixins_comm_tooLong` — names that are too long.
-/

namespace Mixins

open FileTree (Alike Changed Onward)
open Layout (IsPlain IsShort namesTo)

variable {files files' : FileTree} {root : OutputRoot} {pool q : Pool} {l : Location}
  {own : List String} {name target : String} {toWrite toWrite' : Option TypeDef}

theorem Layout.isShort_outermost : IsShort (Name.outermost name) ↔ IsShort name := by
  unfold IsShort namesTo segments
  rw [Name.outermost_outermost]

/-! ## At most one write -/

namespace OutputRoot

theorem writeAny_changed (root : OutputRoot) (files : FileTree) (toWrite : Option TypeDef) :
    ∃ on, Changed on files (root.writeAny files toWrite) := by
  cases toWrite with
  | none => exact ⟨fun _ => False, .refl _ files⟩
  | some t => exact ⟨_, root.write_changed files t⟩

theorem writeAny_comm (h : Onward files root.dir l own) (hplain : ∀ t ∈ toWrite, IsPlain t.name)
    (hplain' : ∀ t ∈ toWrite', IsPlain t.name)
    (hne : ∀ t ∈ toWrite, ∀ t' ∈ toWrite', Name.outermost t.name ≠ Name.outermost t'.name) :
    Alike (root.writeAny (root.writeAny files toWrite) toWrite')
      (root.writeAny (root.writeAny files toWrite') toWrite) := by
  cases toWrite with
  | none => exact .refl _
  | some t =>
    cases toWrite' with
    | none => exact .refl _
    | some t' => exact (write_comm h (hplain t rfl) (hplain' t' rfl) (hne t rfl t' rfl)).2.2

end OutputRoot

/-- **What a pool has under other names** than that of the type which is written. -/
theorem Pool.type?_writeAny (h : Onward files root.dir l own)
    (hsources : ∀ source ∈ q.sources, source.Beside files (l ++ own)) (htarget : IsPlain target)
    (hnamed : ∀ t ∈ toWrite, t.name = Name.outermost target) (hname : IsPlain name ∧ IsShort name)
    (hne : Name.outermost name ≠ Name.outermost target) :
    q.type? (root.writeAny files toWrite) (Name.outermost name) =
      q.type? files (Name.outermost name) := by
  cases toWrite with
  | none => rfl
  | some t =>
    have ht := hnamed t rfl
    refine Pool.type?_write h hsources ?_ (Layout.isPlain_outermost.2 hname.1)
      (Layout.isShort_outermost.2 hname.2) ?_
    · rw [ht]
      exact Layout.isPlain_outermost.2 htarget
    · rw [ht, Name.outermost_outermost, Name.outermost_outermost]
      exact hne

namespace Merge

variable {interfaceName target₁ target₂ : String} {mixins mixins₁ mixins₂ : List String}

theorem conclude_writeAny (h : Onward files root.dir l own) (report : TargetReport)
    (hplain : ∀ t ∈ toWrite, IsPlain t.name) (hplain' : ∀ t ∈ toWrite', IsPlain t.name)
    (hne : ∀ t ∈ toWrite, ∀ t' ∈ toWrite', Name.outermost t.name ≠ Name.outermost t'.name) :
    conclude root (root.writeAny files toWrite) report toWrite' =
      conclude root files report toWrite' := by
  cases toWrite' with
  | none => rfl
  | some t' =>
    cases toWrite with
    | none => rfl
    | some t =>
      have hsame := (OutputRoot.write_comm h (hplain t rfl) (hplain' t' rfl) (hne t rfl t' rfl)).2.1
      simp only [conclude, OutputRoot.writeAny, hsame]

/-- The type to be written declares the target's outermost name if the pool's type does. -/
theorem prepare_named (interfaceName : String) (mixins : List String)
    (h : ∀ t, pool.type? files (Name.outermost target) = .ok (some t) →
      t.name = Name.outermost target) :
    ∀ t ∈ (prepare files interfaceName target mixins pool).2.2, t.name = Name.outermost target := by
  intro t ht
  have hprepare : prepare files interfaceName target mixins pool =
      ((prepare files interfaceName target mixins pool).1,
        (prepare files interfaceName target mixins pool).2.1, some t) := by
    rw [← ht]
  obtain ⟨-, t₀, htype, hext⟩ := prepare_toWrite hprepare
  rw [hext.name, h t₀ htype]

/-- The pool has the type that is written, whatever the files are. -/
theorem prepare_own (files' : FileTree) :
    let done := prepare files interfaceName target mixins pool
    done.2.1.type? (root.writeAny files' done.2.2) (Name.outermost target) =
      done.2.1.type? files' (Name.outermost target) := by
  intro done
  cases hwrite : done.2.2 with
  | none => rfl
  | some t =>
    have hdone : prepare files interfaceName target mixins pool = (done.1, done.2.1, some t) := by
      rw [← hwrite]
    have hresident := (prepare_toWrite hdone).1
    rw [Pool.type?_of_resident hresident, Pool.type?_of_resident hresident]

/-- What the work on a target leaves of what it has nothing to do with. -/
theorem mergeMixins_leaves (interfaceName : String) (root : OutputRoot) (target : String)
    (mixins : List String) (pool : Pool) (files : FileTree) :
    let done := mergeMixins interfaceName root target mixins pool files
    done.2.1.sources = pool.sources ∧
      (∀ outer, (∀ name ∈ target :: mixins, outer ≠ Name.outermost name) →
        done.2.1.residentType? outer = pool.residentType? outer) ∧
      ∀ path l way, Onward files path l way → Onward done.2.2 path l way := by
  rw [mergeMixins_eq]
  obtain ⟨on, hchanged⟩ := root.writeAny_changed files
    (prepare files interfaceName target mixins pool).2.2
  exact ⟨(prepare_agree files interfaceName target mixins pool).sources,
    fun _ houter => prepare_resident files interfaceName target mixins pool houter,
    fun _ _ _ h => h.changed hchanged⟩

/-! ## One target after the other -/

/-- Whether the two targets are no mixins of each other, and all files lie where one target's write
leaves the other's files alone. -/
structure Independent (files : FileTree) (root : OutputRoot) (pool : Pool) (target₁ : String)
    (mixins₁ : List String) (target₂ : String) (mixins₂ : List String) : Prop where
  /-- No module lies in the output root or around it; what is missing of the path to the output root
  goes neither up nor nowhere. -/
  place : ∃ l own, Onward files root.dir l own ∧
    ∀ source ∈ pool.sources, source.Beside files (l ++ own)
  /-- All names have type files of their own. -/
  plain : ∀ name ∈ (target₁ :: mixins₁) ++ (target₂ :: mixins₂), IsPlain name
  /-- The targets' types declare the names that they are found by. -/
  named : ∀ target ∈ [target₁, target₂], ∀ t,
    pool.type? files (Name.outermost target) = .ok (some t) → t.name = Name.outermost target
  /-- The second target and its mixins have nothing to do with the first target. -/
  first : ∀ name ∈ target₂ :: mixins₂, Name.outermost name ≠ Name.outermost target₁
  /-- And the other way round. -/
  second : ∀ name ∈ target₁ :: mixins₁, Name.outermost name ≠ Name.outermost target₂

namespace Independent

theorem symm (h : Independent files root pool target₁ mixins₁ target₂ mixins₂) :
    Independent files root pool target₂ mixins₂ target₁ mixins₁ := by
  refine ⟨h.place, fun name hname => h.plain name ?_, fun target htarget => h.named target ?_,
    h.second, h.first⟩
  · exact List.mem_append.2 (List.mem_append.1 hname).symm
  · simpa [or_comm] using htarget

theorem plain₁ (h : Independent files root pool target₁ mixins₁ target₂ mixins₂) :
    IsPlain target₁ := h.plain target₁ (by simp)

theorem plain₂ (h : Independent files root pool target₁ mixins₁ target₂ mixins₂) {name : String}
    (hname : name ∈ target₂ :: mixins₂) : IsPlain name :=
  h.plain name (List.mem_append_right _ hname)

theorem plain_toWrite (h : Independent files root pool target₁ mixins₁ target₂ mixins₂)
    (interfaceName : String) :
    ∀ t ∈ (prepare files interfaceName target₁ mixins₁ pool).2.2,
      t.name = Name.outermost target₁ ∧ IsPlain t.name := by
  intro t ht
  have hname := prepare_named interfaceName mixins₁ (h.named target₁ (by simp)) t ht
  exact ⟨hname, hname ▸ Layout.isPlain_outermost.2 h.plain₁⟩

/-- **After the other target** the pool has the same types for the work on this one. -/
theorem prepare_after (h : Independent files root pool target₁ mixins₁ target₂ mixins₂)
    (hshort : ∀ name ∈ target₂ :: mixins₂, IsShort name) (interfaceName : String) :
    let done := prepare files interfaceName target₁ mixins₁ pool
    Pool.Alike (root.writeAny files done.2.2) files
      (fun outer => ∃ name ∈ target₂ :: mixins₂, outer = Name.outermost name) done.2.1 pool := by
  rintro done outer ⟨name, hname, rfl⟩
  obtain ⟨l, own, hroot, hsources⟩ := h.place
  have hagree := prepare_agree files interfaceName target₁ mixins₁ pool
  have hnamed := prepare_named interfaceName mixins₁
    (h.named target₁ (by simp))
  rw [Pool.type?_writeAny hroot (hagree.sources ▸ hsources) h.plain₁ hnamed
    ⟨h.plain₂ hname, hshort name hname⟩ (h.first name hname),
    hagree.types _ (h.first name hname)]

/-- The work on this target comes to the same after the other. -/
theorem prepare_second (h : Independent files root pool target₁ mixins₁ target₂ mixins₂)
    (hshort : ∀ name ∈ target₂ :: mixins₂, IsShort name) (interfaceName : String) :
    let done := prepare files interfaceName target₁ mixins₁ pool
    let later := prepare (root.writeAny files done.2.2) interfaceName target₂ mixins₂ done.2.1
    let alone := prepare files interfaceName target₂ mixins₂ pool
    later.1 = alone.1 ∧ later.2.2 = alone.2.2 ∧
      later.2.1.type? (root.writeAny files done.2.2) (Name.outermost target₂) =
        alone.2.1.type? files (Name.outermost target₂) := by
  intro done later alone
  obtain ⟨hreport, hwrite, halike⟩ := prepare_alike (h.prepare_after hshort interfaceName)
    (fun name hname => ⟨name, hname, rfl⟩) interfaceName
  exact ⟨hreport, hwrite, halike _ ⟨target₂, List.mem_cons_self, rfl⟩⟩

/-- Under other names than the second target's, its write changes nothing for a pool over the same
modules. -/
theorem type?_secondWrite (h : Independent files root pool target₁ mixins₁ target₂ mixins₂)
    (hshort : ∀ name ∈ target₂ :: mixins₂, IsShort name) (interfaceName : String)
    (hq : q.sources = pool.sources) (hname : IsPlain name ∧ IsShort name)
    (hne : Name.outermost name ≠ Name.outermost target₂) :
    let done := prepare files interfaceName target₁ mixins₁ pool
    let between := root.writeAny files done.2.2
    let later := prepare between interfaceName target₂ mixins₂ done.2.1
    q.type? (root.writeAny between later.2.2) (Name.outermost name) =
      q.type? between (Name.outermost name) := by
  intro done between later
  obtain ⟨l, own, hroot, hsources⟩ := h.place
  obtain ⟨on, hchanged⟩ := root.writeAny_changed files done.2.2
  have hnamed : ∀ t ∈ later.2.2, t.name = Name.outermost target₂ := by
    rw [(h.prepare_second hshort interfaceName).2.1]
    exact prepare_named interfaceName mixins₂ (h.named target₂ (by simp))
  exact Pool.type?_writeAny (hroot.changed hchanged)
    (fun source hsource => (hsources source (hq ▸ hsource)).changed hchanged) h.symm.plain₁ hnamed
    hname hne

/-- **What the pool has in the end**: the two targets as they have become, and everything else as it
was. -/
theorem type?_after_both (h : Independent files root pool target₁ mixins₁ target₂ mixins₂)
    (hshort : ∀ name ∈ (target₁ :: mixins₁) ++ (target₂ :: mixins₂), IsShort name)
    (interfaceName : String) :
    let done := prepare files interfaceName target₁ mixins₁ pool
    let between := root.writeAny files done.2.2
    let later := prepare between interfaceName target₂ mixins₂ done.2.1
    let after := root.writeAny between later.2.2
    let alone := prepare files interfaceName target₂ mixins₂ pool
    later.2.1.type? after (Name.outermost target₁) =
        done.2.1.type? files (Name.outermost target₁) ∧
      later.2.1.type? after (Name.outermost target₂) =
        alone.2.1.type? files (Name.outermost target₂) ∧
      ∀ outer, outer ≠ Name.outermost target₁ → outer ≠ Name.outermost target₂ →
        later.2.1.type? after outer = pool.type? after outer := by
  intro done between later after alone
  obtain ⟨l, own, hroot, hsources⟩ := h.place
  have hagree := prepare_agree files interfaceName target₁ mixins₁ pool
  have hagree' := prepare_agree between interfaceName target₂ mixins₂ done.2.1
  have hlater : later.2.1.sources = pool.sources := hagree'.sources.trans hagree.sources
  have hshort' : ∀ name ∈ target₂ :: mixins₂, IsShort name :=
    fun name hname => hshort name (List.mem_append_right _ hname)
  have hafter : ∀ q : Pool, q.sources = pool.sources → ∀ name, IsPlain name ∧ IsShort name →
      Name.outermost name ≠ Name.outermost target₂ →
      q.type? after (Name.outermost name) = q.type? between (Name.outermost name) :=
    fun _ hq _ => h.type?_secondWrite hshort' interfaceName hq
  refine ⟨?_, ?_, fun outer hne₁ hne₂ => ?_⟩
  · have hne := h.second target₁ List.mem_cons_self
    rw [hafter _ hlater target₁ ⟨h.plain₁, hshort target₁ (by simp)⟩ hne, hagree'.types _ hne]
    exact prepare_own files
  · exact (prepare_own between).trans (h.prepare_second hshort' interfaceName).2.2
  · -- names that the work asks for have files, and of the others the pool makes nothing resident
    by_cases hasked : ∃ name ∈ (target₁ :: mixins₁) ++ (target₂ :: mixins₂),
        outer = Name.outermost name
    · obtain ⟨name, hname, rfl⟩ := hasked
      have hfile := And.intro (h.plain name hname) (hshort name hname)
      have hnamed := prepare_named interfaceName mixins₁ (h.named target₁ (by simp))
      have hbetween : ∀ q : Pool, q.sources = pool.sources →
          q.type? between (Name.outermost name) = q.type? files (Name.outermost name) :=
        fun q hq => Pool.type?_writeAny hroot (hq ▸ hsources) h.plain₁ hnamed hfile hne₁
      rw [hafter _ hlater name hfile hne₂, hafter _ rfl name hfile hne₂, hagree'.types _ hne₂,
        hbetween _ hagree.sources, hbetween _ rfl, hagree.types _ hne₁]
    · have hothers : ∀ name ∈ (target₁ :: mixins₁) ++ (target₂ :: mixins₂),
          outer ≠ Name.outermost name := fun name hname hsame => hasked ⟨name, hname, hsame⟩
      have hsecond := prepare_resident between interfaceName target₂ mixins₂ done.2.1
        fun name hname => hothers name (List.mem_append_right _ hname)
      have hfirst := prepare_resident files interfaceName target₁ mixins₁ pool
        fun name hname => hothers name (List.mem_append_left _ hname)
      unfold Pool.type?
      rw [hsecond, hfirst, hlater]

end Independent

/-- **The order of two targets does not matter** if neither has to do with the other: both reports,
all files and all later answers of the pool are the same, whether the targets fail or not. -/
theorem mergeMixins_comm (h : Independent files root pool target₁ mixins₁ target₂ mixins₂)
    (hshort : ∀ name ∈ (target₁ :: mixins₁) ++ (target₂ :: mixins₂), IsShort name)
    (interfaceName : String) :
    let first := mergeMixins interfaceName root target₁ mixins₁ pool files
    let second := mergeMixins interfaceName root target₂ mixins₂ first.2.1 first.2.2
    let first' := mergeMixins interfaceName root target₂ mixins₂ pool files
    let second' := mergeMixins interfaceName root target₁ mixins₁ first'.2.1 first'.2.2
    second'.1 = first.1 ∧ second.1 = first'.1 ∧
      (∀ location, second.2.2.find? location = second'.2.2.find? location) ∧
      ∀ names, second.2.1.loadEach second.2.2 names = second'.2.1.loadEach second'.2.2 names := by
  obtain ⟨l, own, hroot, -⟩ := h.place
  simp only [mergeMixins_eq]
  have hshort' : ∀ name ∈ (target₂ :: mixins₂) ++ (target₁ :: mixins₁), IsShort name :=
    fun name hname => hshort name (List.mem_append.2 (List.mem_append.1 hname).symm)
  obtain ⟨hreport, hwrite, -⟩ := h.prepare_second
    (fun name hname => hshort name (List.mem_append_right _ hname)) interfaceName
  obtain ⟨hreport', hwrite', -⟩ := h.symm.prepare_second
    (fun name hname => hshort name (List.mem_append_left _ hname)) interfaceName
  obtain ⟨hfirst, hsecond, hother⟩ := h.type?_after_both hshort interfaceName
  obtain ⟨hfirst', hsecond', hother'⟩ := h.symm.type?_after_both hshort' interfaceName
  rw [hwrite] at hfirst hsecond hother
  rw [hwrite'] at hfirst' hsecond' hother'
  rw [hreport, hreport', hwrite, hwrite']
  have hplain := h.plain_toWrite interfaceName
  have hplain' := h.symm.plain_toWrite interfaceName
  have hne : ∀ t ∈ (prepare files interfaceName target₁ mixins₁ pool).2.2,
      ∀ t' ∈ (prepare files interfaceName target₂ mixins₂ pool).2.2,
        Name.outermost t.name ≠ Name.outermost t'.name := by
    intro t ht t' ht'
    rw [(hplain t ht).1, (hplain' t' ht').1, Name.outermost_outermost, Name.outermost_outermost]
    exact h.second target₁ List.mem_cons_self
  have halike := OutputRoot.writeAny_comm hroot (fun t ht => (hplain t ht).2)
    (fun t ht => (hplain' t ht).2) hne
  refine ⟨?_, ?_, halike.found, fun names => ?_⟩
  · exact conclude_writeAny hroot _ (fun t ht => (hplain' t ht).2) (fun t ht => (hplain t ht).2)
      fun t ht t' ht' => (hne t' ht' t ht).symm
  · exact conclude_writeAny hroot _ (fun t ht => (hplain t ht).2) (fun t ht => (hplain' t ht).2) hne
  · refine Pool.loadEach_congr fun name _ => ?_
    generalize Name.outermost name = outer
    by_cases hne₁ : outer = Name.outermost target₁
    · rw [hne₁]
      exact hfirst.trans hsecond'.symm
    · by_cases hne₂ : outer = Name.outermost target₂
      · rw [hne₂]
        exact hsecond.trans hfirst'.symm
      · exact (hother outer hne₁ hne₂).trans
          ((Pool.type?_alike halike pool outer).trans (hother' outer hne₂ hne₁).symm)

/-- The directory `out`, with nothing in it. -/
def emptyRoot : FileTree := (FileTree.empty.createAll [⟨"out"⟩]).1

/-- A pool over that directory in which an empty class of each of two packages is resident. -/
def twoPackages : Pool :=
  ⟨[.directory ⟨"out"⟩], [("a.T", .bare "a.T" .classType), ("b.U", .bare "b.U" .classType)]⟩

theorem onward_emptyRoot : Onward emptyRoot ⟨"out"⟩ ["out"] [] :=
  ⟨⟨["out"], by decide, by decide⟩, by decide, fun _ h => nomatch h⟩

theorem place_emptyRoot : ∃ l own, Onward emptyRoot ⟨"out"⟩ l own ∧
    ∀ source ∈ twoPackages.sources, source.Beside emptyRoot (l ++ own) := by
  refine ⟨["out"], [], onward_emptyRoot, fun source hsource => ?_⟩
  rw [List.mem_singleton.1 hsource]
  exact ⟨["out"], [], onward_emptyRoot, by decide, by decide⟩

/-- The mixin of one target is missing, and the other is merged and written as if it were alone. -/
theorem mergeMixins_comm_failing :
    let first := mergeMixins "StringTypes" ⟨⟨"out"⟩⟩ "a.T" ["a.Gone"] twoPackages emptyRoot
    let second := mergeMixins "StringTypes" ⟨⟨"out"⟩⟩ "b.U" [] first.2.1 first.2.2
    let first' := mergeMixins "StringTypes" ⟨⟨"out"⟩⟩ "b.U" [] twoPackages emptyRoot
    let second' := mergeMixins "StringTypes" ⟨⟨"out"⟩⟩ "a.T" ["a.Gone"] first'.2.1 first'.2.2
    first.1.error.isSome ∧ first'.1.written = some ⟨"out/b/U.ctype"⟩ ∧
      second'.1 = first.1 ∧ second.1 = first'.1 ∧
      (∀ location, second.2.2.find? location = second'.2.2.find? location) ∧
      ∀ names, second.2.1.loadEach second.2.2 names = second'.2.1.loadEach second'.2.2 names := by
  have hnamed : ∀ target ∈ ["a.T", "b.U"],
      ∀ t ∈ (twoPackages.type? emptyRoot (Name.outermost target)).toOption.join,
        t.name = Name.outermost target := by
    decide
  have hindependent : Independent emptyRoot ⟨⟨"out"⟩⟩ twoPackages "a.T" ["a.Gone"] "b.U" [] :=
    ⟨place_emptyRoot, by decide,
      fun target htarget t ht => hnamed target htarget t (by rw [ht]; rfl),
      by decide, by decide⟩
  exact ⟨by decide +kernel, by decide +kernel,
    mergeMixins_comm hindependent (by decide) "StringTypes"⟩

/-! ## A name that is too long -/

theorem message_ne (name : String) (path : Path) (cause : FileError) :
    (Failure.notFound name).message ≠ (Failure.file path cause).message := by
  intro h
  have hfirst : (Failure.notFound name).message.toList.head? = some 'N' := by
    change ("NotFound: " ++ name).toList.head? = some 'N'
    rw [String.toList_append]
    rfl
  have hfirst' : (Failure.file path cause).message.toList.head? = some 'I' := by
    change ("IOFailure at " ++ path.text ++ ": " ++ cause.message).toList.head? = some 'I'
    rw [String.toList_append, String.toList_append, String.toList_append]
    rfl
  rw [h, hfirst'] at hfirst
  cases hfirst

/-- A segment of 256 letters. -/
def manyLetters : List Char := List.replicate 256 'x'

/-- A name in the package of `a.T` that goes on with that segment. -/
def tooLong : String := String.ofList (['a', '.'] ++ manyLetters ++ ['.', 'M'])

theorem mem_manyLetters {c : Char} (h : c ∈ manyLetters) : c = 'x' := List.eq_of_mem_replicate h

theorem utf8ByteSize_manyLetters : (String.ofList manyLetters).utf8ByteSize = 256 := by
  have hsize : ∀ n, (String.ofList (List.replicate n 'x')).utf8ByteSize = n := by
    intro n
    induction n with
    | zero => rfl
    | succ n ih =>
      have hletter : Char.utf8Size 'x' = 1 := by decide
      rw [List.replicate_succ, String.ofList_cons, String.utf8ByteSize_append,
        String.utf8ByteSize_singleton, ih, hletter, Nat.add_comm]
  exact hsize 256

theorem isSegment_tooLong : ∀ segment ∈ [['a'], manyLetters, ['M']], Path.IsSegment segment := by
  have hletters : Path.IsSegment manyLetters := by
    refine ⟨List.cons_ne_nil _ _, fun hslash => ?_, fun hdot => ?_⟩
    · exact absurd (mem_manyLetters hslash) (by decide)
    · exact absurd (mem_manyLetters hdot) (by decide)
  have hletter : Path.IsSegment ['a'] ∧ Path.IsSegment ['M'] := by decide
  simpa using ⟨hletter.1, hletters, hletter.2⟩

theorem toList_tooLong : tooLong.toList = ['.'].intercalate [['a'], manyLetters, ['M']] :=
  String.toList_ofList

theorem outermost_tooLong : Name.outermost tooLong = tooLong := by
  refine Name.outermost_of_not_mem fun hmark => ?_
  rw [tooLong, String.toList_ofList, List.mem_append, List.mem_append] at hmark
  rcases hmark with (hstart | hletter) | hend
  · exact absurd hstart (by decide)
  · exact absurd (mem_manyLetters hletter) (by decide)
  · exact absurd hend (by decide)

theorem segments_tooLong : Layout.segments tooLong = [['a'], manyLetters, ['M']] := by
  rw [Layout.segments, outermost_tooLong, toList_tooLong]
  exact List.splitOn_intercalate '.' (fun segment h => (isSegment_tooLong segment h).dot)
    (List.cons_ne_nil _ _)

theorem isPlain_tooLong : IsPlain tooLong := by
  unfold IsPlain
  rw [segments_tooLong]
  exact isSegment_tooLong

theorem tooLong_ne : ∀ name ∈ ["a.T", "b.U"], tooLong ≠ name := by
  have hlength : tooLong.toList.length = 260 := by
    rw [tooLong, String.toList_ofList, List.length_append, List.length_append, manyLetters,
      List.length_replicate]
    rfl
  rintro name hname rfl
  rcases List.mem_pair.1 hname with hname | hname
  · rw [hname] at hlength
    exact absurd hlength (by decide)
  · rw [hname] at hlength
    exact absurd hlength (by decide)

/-- The text of the path to its file. -/
def longPath : List Char :=
  ['o', 'u', 't', '/', 'a', '/'] ++ manyLetters ++ ['/', 'M', '.', 'c', 't', 'y', 'p', 'e']

theorem fileIn_tooLong : Layout.fileIn ⟨"out"⟩ tooLong = ⟨String.ofList longPath⟩ := by
  have hsegments : ['/'].intercalate [['a'], manyLetters, ['M']] =
      'a' :: '/' :: manyLetters ++ ['/', 'M'] := rfl
  have hend : ".".toList ++ Layout.extension.toList = ['.', 'c', 't', 'y', 'p', 'e'] := by decide
  have hentry : (Layout.entryPath tooLong).toList = 'a' :: '/' :: manyLetters ++
      ['/', 'M', '.', 'c', 't', 'y', 'p', 'e'] := by
    rw [Layout.entryPath, outermost_tooLong, toList_tooLong, Layout.map_dots isSegment_tooLong,
      hsegments, String.toList_append, String.toList_append, String.toList_ofList,
      List.append_assoc, hend, List.append_assoc]
    rfl
  have hrelative : (⟨Layout.entryPath tooLong⟩ : Path).isAbsolute = false := by
    rw [Path.isAbsolute, hentry]
    rfl
  refine Path.ext_toList ?_
  rw [Layout.fileIn, Layout.filePath_eq isPlain_tooLong, Path.join_toList _ hrelative, hentry]
  exact String.toList_ofList.symm

theorem checkText_tooLong : FileTree.checkText (Layout.fileIn ⟨"out"⟩ tooLong) = .ok () := by
  have hnul : longPath.contains '\x00' = false := by
    refine Bool.eq_false_iff.2 fun hnul => ?_
    rw [List.contains_iff_mem, longPath, List.mem_append, List.mem_append] at hnul
    rcases hnul with (hstart | hletter) | hend
    · exact absurd hstart (by decide)
    · exact absurd (mem_manyLetters hletter) (by decide)
    · exact absurd hend (by decide)
  have hempty : String.ofList longPath ≠ "" := by
    rw [ne_eq, ← String.toList_inj, String.toList_ofList]
    exact List.cons_ne_nil _ _
  have hsize : (String.ofList longPath).utf8ByteSize = 270 := by
    rw [longPath, String.ofList_append, String.ofList_append, String.utf8ByteSize_append,
      String.utf8ByteSize_append, utf8ByteSize_manyLetters]
    rfl
  rw [fileIn_tooLong, FileTree.checkText, String.toList_ofList, hnul, if_neg Bool.false_ne_true,
    if_neg hempty, hsize, if_neg (by decide)]

theorem namesTo_tooLong : namesTo tooLong Layout.extension.toList =
    ["a", String.ofList manyLetters, "M.ctype"] := by
  have hfile : String.ofList ['a'] = "a" ∧
      String.ofList (['M'] ++ '.' :: Layout.extension.toList) = "M.ctype" := by
    decide
  rw [namesTo, segments_tooLong, Layout.wayTo, List.getLast?_cons_cons, List.getLast?_cons_cons,
    List.getLast?_singleton, Option.getD_some, hfile.2]
  simp only [List.dropLast, List.map_cons, List.map_nil, hfile.1, List.cons_append, List.nil_append]

/-- What a pool over the directory has under that name, while the package's directory is missing and
when it is there. -/
theorem type?_tooLong (hsources : pool.sources = [.directory ⟨"out"⟩])
    (hresident : pool.residentType? tooLong = none) (h : Onward files ⟨"out"⟩ ["out"] []) :
    (files.find? ["out", "a"] = none → pool.type? files tooLong = .ok none) ∧
      (files.find? ["out", "a"] = some .directory → pool.type? files tooLong =
        .error (.file (Layout.fileIn ⟨"out"⟩ tooLong) (.system .nameTooLong))) := by
  have hway := h.below (Layout.below_fileIn ⟨"out"⟩ isPlain_tooLong)
  rw [namesTo_tooLong, List.nil_append] at hway
  have hthrough : FileTree.Through files (Layout.fileIn ⟨"out"⟩ tooLong) ["out"]
      ["a", String.ofList manyLetters, "M.ctype"] :=
    ⟨hway, checkText_tooLong⟩
  obtain ⟨hmissing, hthere⟩ := hthrough.read_tooLong (by decide)
    (by rw [utf8ByteSize_manyLetters]; decide)
  obtain ⟨hnone, herror⟩ := Module.Source.typeBytes?_of_read files ⟨"out"⟩ tooLong
  rw [Pool.type?, hresident, hsources]
  dsimp only
  rw [Pool.firstType?]
  refine ⟨fun hfound => ?_, fun hfound => ?_⟩
  · rw [hnone (hmissing hfound)]
    rfl
  · rw [herror _ (by simp) (hthere hfound)]
    rfl

theorem residentType?_tooLong : twoPackages.residentType? tooLong = none := by
  have hfirst := beq_false_of_ne (tooLong_ne "a.T" (by simp))
  have hsecond := beq_false_of_ne (tooLong_ne "b.U" (by simp))
  simp [Pool.residentType?, twoPackages, List.lookup_cons, hfirst, hsecond]

theorem independent_tooLong :
    Independent emptyRoot ⟨⟨"out"⟩⟩ twoPackages "a.T" [] tooLong [] := by
  have houter : Name.outermost "a.T" = "a.T" := by decide
  have hne : tooLong ≠ "a.T" := tooLong_ne "a.T" (by simp)
  refine ⟨place_emptyRoot, ?_, ?_, ?_, ?_⟩
  · simpa using ⟨by decide, isPlain_tooLong⟩
  · intro target htarget t ht
    rcases List.mem_pair.1 htarget with rfl | rfl
    · rw [houter] at ht ⊢
      have hresident : twoPackages.residentType? "a.T" = some (.bare "a.T" .classType) := by decide
      rw [Pool.type?_of_resident hresident, Except.ok.injEq, Option.some.injEq] at ht
      rw [← ht]
      rfl
    · have hnone := (type?_tooLong rfl residentType?_tooLong onward_emptyRoot).1 (by decide)
      rw [outermost_tooLong, hnone] at ht
      cases ht
  · simpa [outermost_tooLong, houter] using hne
  · simpa [outermost_tooLong, houter] using hne.symm

/-- What is reported of a target with that name. -/
theorem error_tooLong (hsources : pool.sources = [.directory ⟨"out"⟩])
    (hresident : pool.residentType? tooLong = none) (h : Onward files ⟨"out"⟩ ["out"] [])
    (root : OutputRoot) (interfaceName : String) (mixins : List String) :
    (files.find? ["out", "a"] = none →
        (mergeMixins interfaceName root tooLong mixins pool files).1.error =
          some (Failure.notFound tooLong).message) ∧
      (files.find? ["out", "a"] = some .directory →
        (mergeMixins interfaceName root tooLong mixins pool files).1.error =
          some (Failure.file (Layout.fileIn ⟨"out"⟩ tooLong) (.system .nameTooLong)).message) := by
  obtain ⟨hmissing, hthere⟩ := type?_tooLong hsources hresident h
  obtain ⟨hnone, herror⟩ := error_of_type? outermost_tooLong root interfaceName mixins
  exact ⟨fun h => hnone (hmissing h), fun h => herror _ (hthere h)⟩

/-- The targets have nothing to do with each other, but the directory that the work on the one
creates is that in which the other's name is too long. -/
theorem mergeMixins_comm_tooLong :
    let first := mergeMixins "StringTypes" ⟨⟨"out"⟩⟩ "a.T" [] twoPackages emptyRoot
    Independent emptyRoot ⟨⟨"out"⟩⟩ twoPackages "a.T" [] tooLong [] ∧
      (mergeMixins "StringTypes" ⟨⟨"out"⟩⟩ tooLong [] first.2.1 first.2.2).1 ≠
        (mergeMixins "StringTypes" ⟨⟨"out"⟩⟩ tooLong [] twoPackages emptyRoot).1 := by
  refine ⟨independent_tooLong, fun hsame => ?_⟩
  have hthere : (mergeMixins "StringTypes" ⟨⟨"out"⟩⟩ "a.T" [] twoPackages emptyRoot).2.2.find?
      ["out", "a"] = some .directory := by
    decide +kernel
  have hmissing : emptyRoot.find? ["out", "a"] = none := by decide
  obtain ⟨hsources, hresident, honward⟩ :=
    mergeMixins_leaves "StringTypes" ⟨⟨"out"⟩⟩ "a.T" [] twoPackages emptyRoot
  have hother : ∀ name ∈ ["a.T"], tooLong ≠ Name.outermost name := by
    intro name hname
    rw [List.mem_singleton.1 hname, ← outermost_tooLong]
    exact independent_tooLong.first tooLong List.mem_cons_self
  have hsecond := error_tooLong hsources ((hresident _ hother).trans residentType?_tooLong)
    (honward _ _ _ onward_emptyRoot) ⟨⟨"out"⟩⟩ "StringTypes" []
  have hfirst := error_tooLong rfl residentType?_tooLong onward_emptyRoot ⟨⟨"out"⟩⟩ "StringTypes" []
  have herror := congrArg TargetReport.error hsame
  rw [hsecond.2 hthere, hfirst.1 hmissing] at herror
  exact message_ne _ _ _ (Option.some.inj herror).symm

/-- The way to the output root goes up from a directory that is missing, in a module. The work on
one target creates it, and then it stands where the file of the other is looked for. -/
example :
    let files := (FileTree.empty.createAll [⟨"x"⟩]).1
    let pool : Pool := ⟨[.directory ⟨"x"⟩], twoPackages.types⟩
    let root : OutputRoot := ⟨⟨"x/M.ctype/../../out"⟩⟩
    let first := mergeMixins "StringTypes" root "a.T" [] pool files
    (mergeMixins "StringTypes" root "M" [] first.2.1 first.2.2).1.error =
        some "IOFailure at x/M.ctype: Is a directory (os error 21)" ∧
      (mergeMixins "StringTypes" root "M" [] pool files).1.error = some "NotFound: M" := by
  decide +kernel

end Merge

end Mixins
