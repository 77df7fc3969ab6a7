import Mixins.Proofs.Merge.FirstApplied
import Mixins.Proofs.OutputRoot
import Mixins.Proofs.Variant.Union

/-!
# What a union leaves of the output root's type

The output root is the first module. If it has the type, its own outermost type survives, and
nothing of it is lost. If the type is nested and the output root has only the outermost type around
it, the outermost type of a later module is written over that one.

* `Keeps` — whether all that a type declares is still declared.
* `collect_output` — the output root's type is the first variant if it holds the type.
* `writeUnion_keeps_iff` — what is written keeps what was there just if the surviving type does.
-/

namespace Mixins

/-! ## What is still declared -/

/-- Whether the methods, fields and constructors are still declared: methods with their signatures,
fields with their names. -/
structure Declaration.Keeps (d d' : Declaration) : Prop where
  methods : d.methods.map (fun m => (m.name, m.signature)) ⊆
    d'.methods.map fun m => (m.name, m.signature)
  fields : d.fields.map (·.name) ⊆ d'.fields.map (·.name)
  constructors : d.constructors.map (·.signature) ⊆ d'.constructors.map (·.signature)

theorem Declaration.Extends.keeps {d d' : Declaration} (h : d.Extends d') : d.Keeps d' :=
  ⟨(h.methods.map _).subset, (h.fields.map _).subset, (h.constructors.map _).subset⟩

namespace TypeDef

/-- Whether each nested type is still there, at every depth, and its members are still declared. -/
def Keeps (t t' : TypeDef) : Prop :=
  ∀ path d, (t.descendant? path).map (·.toDeclaration) = some d →
    ∃ d', (t'.descendant? path).map (·.toDeclaration) = some d' ∧ d.Keeps d'

theorem Extends.keeps {t t' : TypeDef} (h : t.Extends t') : t.Keeps t' := by
  intro path d hd
  obtain ⟨x, hx, rfl⟩ := Option.map_eq_some_iff.1 hd
  obtain ⟨x', hx', hext⟩ := h.descendant? hx
  exact ⟨x'.toDeclaration, by rw [hx', Option.map_some], hext.declaration.keeps⟩

theorem keeps_congr {t t' t'' : TypeDef} (h : ∀ path, (t.descendant? path).isSome →
    (t'.descendant? path).map (·.toDeclaration) = (t''.descendant? path).map (·.toDeclaration)) :
    t.Keeps t' ↔ t.Keeps t'' := by
  refine forall_congr' fun path => forall_congr' fun d => forall_congr' fun hd => ?_
  obtain ⟨x, hx, -⟩ := Option.map_eq_some_iff.1 hd
  rw [h path (by rw [hx, Option.isSome_some])]

/-- The types on the way to a nested type are there as well. -/
theorem descendant?_of_prefix {t : TypeDef} {chain path : List String} (hway : chain <+: path)
    (h : (t.descendant? path).isSome) : (t.descendant? chain).isSome := by
  induction chain generalizing t path with
  | nil => rfl
  | cons inner chain ih =>
    obtain ⟨below, rfl⟩ := hway
    cases hn : t.nestedType? inner with
    | none => simp [descendant?, hn] at h
    | some n =>
      rw [List.cons_append, descendant?, hn, Option.bind_some] at h
      rw [descendant?, hn, Option.bind_some]
      exact ih (List.prefix_append chain below) h

end TypeDef

/-! ## The output root as a module -/

variable {root : OutputRoot} {files files' : FileTree} {name : String} {t : TypeDef}

/-- A module of the output root answers with the type that it remembers, or else with the one in the
file. -/
theorem Module.loadOutermost?_of_read {m : Module} (hsource : m.source = .directory root.dir)
    (hread : root.read files name = .ok t) :
    (∃ cause, (m.loadOutermost? files name).1 = .error cause) ∨
      (m.loadOutermost? files name).1 =
        .ok (some ((m.known.lookup (Name.outermost name)).getD t)) := by
  rcases Module.loadOutermost?_cases files m name with ⟨t', hknown, hload⟩ | ⟨hknown, hrest⟩
  · exact .inr (by rw [hload, hknown, Option.getD_some])
  · have hanswer : (m.loadOutermost? files name).1 =
        Module.readOutermost? files m.source (Name.outermost name) := by
      rcases hrest with ⟨t', hfile, hload⟩ | ⟨found, hfile, -, hload⟩ <;> rw [hload, hfile]
    obtain ⟨content, hfile, hdecoded⟩ := OutputRoot.read_eq_ok_iff.1 hread
    have hbytes : m.source.typeBytes? files (Name.outermost name) = .ok (some content) := by
      have hpath : Layout.fileIn root.dir (Name.outermost name) = root.pathFor name :=
        OutputRoot.pathFor_outermost root name
      rw [hsource]
      unfold Module.Source.typeBytes?
      dsimp only
      rw [hpath, hfile]
    rw [hanswer, hknown, Option.getD_none]
    exact Module.readOutermost?_of_ok hbytes (TypeDef.ofBytes_congr hdecoded _)

/-- Whether the output root is the first module, and all modules remember types under their own
names. -/
structure Classpath.Rooted (root : OutputRoot) (classpath : Classpath) : Prop where
  first : ∃ m rest, classpath = m :: rest ∧ m.source = .directory root.dir
  honest : ∀ m ∈ classpath, m.Honest

theorem Classpath.rooted_ofSource (root : OutputRoot) (rest : List Module.Source) :
    Classpath.Rooted root ((.directory root.dir :: rest).map Module.ofSource) where
  first := ⟨_, _, rfl, rfl⟩
  honest := by
    intro m hm
    obtain ⟨source, -, rfl⟩ := List.mem_map.1 hm
    exact Module.honest_ofSource source

theorem Classpath.Rooted.follows {classpath classpath' : Classpath} (h : classpath.Rooted root)
    (hasked : classpath.Follows classpath') : classpath'.Rooted root := by
  have hhonest := hasked.honest h.honest
  obtain ⟨m, rest, rfl, hsource⟩ := h.first
  cases hasked with
  | cons hm hrest => exact ⟨⟨_, _, rfl, hm.source.trans hsource⟩, hhonest⟩

namespace Variant

open TypeDef (returningItself)

variable {interfaceName : String}

/-- **The output root's type comes first** if it holds the type. -/
theorem collect_output {m : Module} {rest : Classpath} {outer : TypeDef}
    (hsource : m.source = .directory root.dir) (hread : root.read files name = .ok t)
    (houter : (m.known.lookup (Name.outermost name)).getD t = outer)
    (hreadable : (collect files name (m :: rest)).2.1 = none)
    (hpart : (outer.descendant? (Name.chain name)).isSome) :
    ∃ label, (collect files name (m :: rest)).1 =
      ⟨label, outer⟩ :: (collect files name rest).1 := by
  rcases Module.loadOutermost?_of_read hsource hread with ⟨cause, hfailed⟩ | hfound
  · rw [collect_failed rest hfailed] at hreadable
    cases hreadable
  · rw [houter] at hfound
    exact collect_cons rest hfound hpart

/-- Whether the union of a type starts from an extension of the type in the output root's file: the
output root's module has not read the file before, or remembers nothing less, and the type in the
file holds the united type. -/
def StartsUpToDate (root : OutputRoot) (name : String) (classpath : Classpath) (files : FileTree) :
    Prop :=
  ∀ t, root.read files name = .ok t → ∀ m ∈ classpath.head?,
    let outer := (m.known.lookup (Name.outermost name)).getD t
    t.Extends outer ∧ (outer.descendant? (Name.chain name)).isSome

/-- An outermost type that the output root's module has not been asked for. -/
theorem startsUpToDate_of_unread {classpath : Classpath} (hname : Name.isOutermost name = true)
    (hunread : ∀ m ∈ classpath.head?, m.known.lookup (Name.outermost name) = none) :
    StartsUpToDate root name classpath files := by
  intro t _ m hm
  rw [hunread m hm, Option.getD_none, Name.chain_of_isOutermost hname]
  exact ⟨.refl t, rfl⟩

variable {classpath : Classpath} {report : UnionReport}

/-- What is written is read back, from the united type's own file. -/
theorem Uniting.read_written {path : Path}
    (h : Uniting interfaceName root name classpath files report files')
    (hhonest : ∀ m ∈ classpath, m.Honest) (hwritten : report.written = some path) :
    path = root.pathFor name ∧ ∃ t, root.read files' name = .ok t := by
  cases h with
  | idle nothing =>
    rw [nothing] at hwritten
    cases hwritten
  | unwritten _ _ _ nothing =>
    rw [nothing] at hwritten
    cases hwritten
  | written _ variants united write told =>
    rw [told, Option.some.injEq] at hwritten
    have hname := unite?_name hhonest variants united
    obtain ⟨-, hpath, hback, -⟩ := OutputRoot.write_eq_ok write
    exact ⟨by rw [← hwritten, hpath, hname, OutputRoot.pathFor_outermost], _,
      hback name hname.symm⟩

/-- **A union that starts up to date** loses nothing that the output root has. -/
theorem Uniting.holds {other : String}
    (h : Uniting interfaceName root name classpath files report files')
    (hrooted : classpath.Rooted root) (hname : Layout.IsPlain name) (hother : Layout.IsPlain other)
    (hstart : report.written = some (root.pathFor other) →
      StartsUpToDate root name classpath files)
    (hholds : root.Holds files other t) : root.Holds files' other t := by
  obtain ⟨old, hread, hext⟩ := hholds
  have hplain : ∀ {x : TypeDef}, x.name = Name.outermost name → Layout.IsPlain x.name :=
    fun hx => hx ▸ Layout.isPlain_outermost.2 hname
  cases h with
  | idle => exact ⟨old, hread, hext⟩
  | unwritten variants united write =>
    have hx := unite?_name hrooted.honest variants united
    exact ⟨old, OutputRoot.read_write write hother (hplain hx) (fun path hpath => nomatch hpath)
      hread, hext⟩
  | @written first others new _ path _ _ readable variants united write told =>
    have hx := unite?_name hrooted.honest variants united
    obtain ⟨-, hpath, hback, -⟩ := OutputRoot.write_eq_ok write
    by_cases hsame : Name.outermost other = Name.outermost name
    · obtain ⟨m, rest, rfl, hsource⟩ := hrooted.first
      have hown : path = root.pathFor other := by
        rw [hpath, hx, ← hsame, OutputRoot.pathFor_outermost]
      rw [OutputRoot.read_congr hsame] at hread
      obtain ⟨hup, hpart⟩ := hstart (by rw [told, hown]) old hread m rfl
      obtain ⟨label, hhead⟩ := collect_output hsource hread rfl readable hpart
      have hfirst : first = ⟨label, _⟩ := (List.cons.inj (variants.symm.trans hhead)).1
      have hnew := (unite?_eq_some united).1
      rw [hfirst] at hnew
      exact ⟨new, hback other (hsame.trans hx.symm), (hext.trans hup).trans hnew⟩
    · have hdistinct : Name.outermost other ≠ Name.outermost new.name := by
        rw [hx, Name.outermost_outermost]
        exact hsame
      exact ⟨old, OutputRoot.read_write write hother (hplain hx) (fun _ _ => hdistinct) hread, hext⟩

/-- **What a union leaves of the output root's type.** The modules are freshly opened, and the
output root comes first. What is written extends the outermost type around the first variant. That
is the output root's own type if it holds the type that is united, and then nothing is lost;
otherwise all that the file declared is still declared just if the first variant's type declares
it. -/
theorem writeUnion_keeps_iff {rest : List Module.Source} {old : TypeDef}
    {path : Path} (hopened : classpath = (.directory root.dir :: rest).map Module.ofSource)
    (hwritten : (writeUnion interfaceName root name classpath files).1.written = some path)
    (hold : root.read files name = .ok old) :
    path = root.pathFor name ∧ ∃ first others new,
      (collect files name classpath).1 = first :: others ∧
      root.read (writeUnion interfaceName root name classpath files).2.2 name = .ok new ∧
      first.outer.Extends new ∧
      ((old.descendant? (Name.chain name)).isSome → first.outer = old) ∧
      (old.Keeps new ↔ old.Keeps first.outer) := by
  have huniting := (writeUnion_uniting interfaceName root name classpath files).1
  generalize (writeUnion interfaceName root name classpath files).1 = report at huniting hwritten
  generalize (writeUnion interfaceName root name classpath files).2.2 = files' at huniting ⊢
  cases huniting with
  | idle nothing =>
    rw [nothing] at hwritten
    cases hwritten
  | unwritten _ _ _ nothing =>
    rw [nothing] at hwritten
    cases hwritten
  | @written first others new outcome path' _ _ readable variants united write told =>
    rw [told, Option.some.injEq] at hwritten
    subst hwritten
    obtain ⟨hextends, houtside⟩ := unite?_eq_some united
    have hrooted : classpath.Rooted root := hopened ▸ Classpath.rooted_ofSource root rest
    have hname := unite?_name hrooted.honest variants united
    have hfirst : (old.descendant? (Name.chain name)).isSome → first.outer = old := by
      intro hpart
      rw [hopened, List.map_cons] at readable variants
      have hfresh : ((Module.ofSource (.directory root.dir)).known.lookup
          (Name.outermost name)).getD old = old := rfl
      obtain ⟨label, hhead⟩ := collect_output rfl hold hfresh readable hpart
      rw [(List.cons.inj (variants.symm.trans hhead)).1]
    obtain ⟨-, hpath, hback, -⟩ := OutputRoot.write_eq_ok write
    refine ⟨?_, first, others, new, variants, hback name hname.symm, hextends, hfirst, ?_⟩
    · rw [hpath, hname, OutputRoot.pathFor_outermost]
    · cases hpart : old.descendant? (Name.chain name) with
      | some part =>
        have hsame := hfirst (by rw [hpart, Option.isSome_some])
        rw [hsame] at hextends ⊢
        exact iff_of_true hextends.keeps (TypeDef.Extends.refl old).keeps
      | none =>
        refine TypeDef.keeps_congr fun path hpath => houtside path fun hprefix => ?_
        have hchain := TypeDef.descendant?_of_prefix hprefix hpath
        rw [hpart] at hchain
        cases hchain

/-- The output root has a method in `u.N`, and two other modules have a type `u.N$I`. -/
def threeModules : FileTree :=
  OutputRoot.storing [(⟨⟨"out"⟩⟩, returningItself "u.N" ["kept"] []),
    (⟨⟨"a"⟩⟩, returningItself "u.N" [] [returningItself "u.N$I" ["x"] []]),
    (⟨⟨"b"⟩⟩, returningItself "u.N" [] [returningItself "u.N$I" ["y"] []])]

def threeOpened : Classpath :=
  [.directory ⟨"out"⟩, .directory ⟨"a"⟩, .directory ⟨"b"⟩].map Module.ofSource

/-- The outermost type of the second module is written over the output root's, and the method is
lost. -/
theorem writeUnion_keeps_iff_overwritten : ∃ old new,
    (writeUnion "StringTypes" ⟨⟨"out"⟩⟩ "u.N$I" threeOpened threeModules).1.written =
      some ⟨"out/u/N.ctype"⟩ ∧
    OutputRoot.read ⟨⟨"out"⟩⟩ threeModules "u.N$I" = .ok old ∧
    OutputRoot.read ⟨⟨"out"⟩⟩
      (writeUnion "StringTypes" ⟨⟨"out"⟩⟩ "u.N$I" threeOpened threeModules).2.2 "u.N$I" = .ok new ∧
    ¬ old.Keeps new := by
  have hopened : threeOpened = (.directory (OutputRoot.mk ⟨"out"⟩).dir ::
    [.directory ⟨"a"⟩, .directory ⟨"b"⟩]).map Module.ofSource := rfl
  have hwritten : (writeUnion "StringTypes" ⟨⟨"out"⟩⟩ "u.N$I" threeOpened threeModules).1.written =
      some ⟨"out/u/N.ctype"⟩ := by
    decide +kernel
  have hold : OutputRoot.read ⟨⟨"out"⟩⟩ threeModules "u.N$I" =
      .ok (returningItself "u.N" ["kept"] []) :=
    toOption_eq_some.1 (by decide +kernel)
  have hsurvivor : ((collect threeModules "u.N$I" threeOpened).1.map (·.outer)).head? =
      some (returningItself "u.N" [] [returningItself "u.N$I" ["x"] []]) := by
    decide +kernel
  obtain ⟨-, first, others, new, hvariants, hnew, -, -, hiff⟩ :=
    writeUnion_keeps_iff hopened hwritten hold
  refine ⟨_, new, hwritten, hold, hnew, fun hkept => ?_⟩
  rw [hvariants, List.map_cons, List.head?_cons, Option.some.injEq] at hsurvivor
  rw [hiff, hsurvivor] at hkept
  obtain ⟨d, hd, hkeeps⟩ := hkept [] _ rfl
  cases hd
  exact absurd hkeeps.methods (by decide)

end Variant

end Mixins
