import Mixins.Proofs.FileTree.Replace

/-!
# Locations below a path

Two paths that go on from a common path through different names lead to different locations, and a
change to the tree does not make them meet.

* `Below` — a path that goes on from another.
* `Changed.own_eq` — where the locations are the same, the names are.
-/

namespace Mixins.FileTree

variable {t t' : FileTree} {root path path' : Path} {own own' : List String} {l : Location}

/-- Whether the path goes on from `root` through the names, which go neither up nor nowhere. -/
structure Below (root path : Path) (own : List String) : Prop where
  way : names path = names root ++ own
  absolute : path.isAbsolute = root.isAbsolute
  ordinary : ∀ name ∈ own, name ≠ "." ∧ name ≠ ".."

theorem foldlM_step_ordinary {m : Location} (hown : ∀ name ∈ own, name ≠ "." ∧ name ≠ "..")
    (h : own.foldlM t.step l = .ok m) : m = l ++ own := by
  induction own generalizing l with
  | nil =>
    cases h
    rw [List.append_nil]
  | cons name own ih =>
    obtain ⟨⟨hdot, hdots⟩, hown⟩ := List.forall_mem_cons.1 hown
    obtain ⟨l', hstep, hrest⟩ := foldlM_step_cons.1 h
    have hl' := (step_eq_ok_iff.1 hstep).2
    rw [if_neg hdot, if_neg hdots] at hl'
    rw [ih hown hrest, hl'.2.1, List.append_assoc, List.singleton_append]

/-- A path below `root` leads on from the directory that `root` leads to. -/
theorem Below.locate (h : Below root path own) (hown : own ≠ []) (hl : t.locate path = .ok l) :
    ∃ start, (names root).foldlM t.step (t.base root) = .ok start ∧
      t.find? start = some .directory ∧ l = start ++ own := by
  obtain ⟨-, hnames, -⟩ := locate_eq_ok_iff.1 hl
  rw [h.way, List.foldlM_append, bind_eq_ok, base, h.absolute, ← base] at hnames
  obtain ⟨start, hstart, hrest⟩ := hnames
  refine ⟨start, hstart, ?_, foldlM_step_ordinary h.ordinary hrest⟩
  obtain ⟨name, rest, rfl⟩ := List.exists_cons_of_ne_nil hown
  obtain ⟨_, hstep, -⟩ := foldlM_step_cons.1 hrest
  exact (step_eq_ok_iff.1 hstep).1

theorem Below.endsAt (h : Below root path own) (hown : own ≠ []) (hl : t.EndsAt path l) :
    ∃ start, (names root).foldlM t.step (t.base root) = .ok start ∧ l = start ++ own := by
  obtain ⟨slash, hending⟩ := hl
  obtain ⟨-, init, last, dir, hnames, hdir, -, -, -, rfl, -⟩ := ending_eq_name_iff.1 hending
  obtain ⟨before, last', rfl⟩ := (List.eq_nil_or_concat own).resolve_left hown
  rw [h.way, List.concat_eq_append, ← List.append_assoc] at hnames
  obtain ⟨rfl, hlast⟩ := List.append_inj' hnames rfl
  rw [List.foldlM_append, bind_eq_ok, base, h.absolute, ← base] at hdir
  obtain ⟨start, hstart, hrest⟩ := hdir
  have hordinary : ∀ name ∈ before, name ≠ "." ∧ name ≠ ".." :=
    fun name hname => h.ordinary name (by simp [hname])
  exact ⟨start, hstart, by rw [foldlM_step_ordinary hordinary hrest, ← hlast]; simp⟩

/-- **One location belongs to one path below `root`**, before and after a change. -/
theorem Changed.own_eq {on : Location → Prop} (hchanged : Changed on t t')
    (h : Below root path own) (h' : Below root path' own') (hown : own ≠ []) (hown' : own' ≠ [])
    (hl : t.locate path = .ok l) (hl' : t'.EndsAt path' l) : own = own' := by
  obtain ⟨start, hstart, hdirectory, rfl⟩ := h.locate hown hl
  obtain ⟨start', hstart', hsame⟩ := h'.endsAt hown' hl'
  have hbase : t'.base root = t.base root := by rw [base, base, hchanged.start]
  have hagain := hchanged.foldlM_step (by rw [hchanged.directory hdirectory]; simp) hstart
  rw [hbase, hagain, Except.ok.injEq] at hstart'
  subst hstart'
  exact List.append_cancel_left hsame

end Mixins.FileTree
