import Mathlib.Data.List.DropRight
import Mixins.Proofs.Layout
import Mixins.Proofs.Path.Parent

/-!
# The temporary sibling of a path

The last of the names in a path is what follows its last slash, apart from slashes at the very end.
The temporary sibling has another name in its place and is otherwise the same way.

* `text_of_names` — where the last of the names stands in the text.
* `setExtension_append_slashes` — slashes at the end do not matter to an extension.
* `temporary_of_names` — the temporary sibling of any path that ends in a name.
-/

namespace Mixins.Path

open FileTree (names)

variable {path : Path} {front name : List Char}

theorem IsFront.join (hfront : IsFront front) (hname : '/' ∉ name) :
    (⟨String.ofList (front ++ name)⟩ : Path) =
      Path.join ⟨String.ofList front⟩ ⟨String.ofList name⟩ := by
  rw [join_name _ hname, String.toList_ofList, hfront.lead_eq]

theorem isAbsolute_name (hname : '/' ∉ name) : isAbsolute ⟨String.ofList name⟩ = false := by
  rw [isAbsolute, String.toList_ofList, beq_eq_false_iff_ne]
  exact fun hhead => hname (List.mem_of_head? hhead)

theorem isAbsolute_append {text : List Char} (h : text ≠ []) (more : List Char) :
    isAbsolute ⟨String.ofList (text ++ more)⟩ = isAbsolute ⟨String.ofList text⟩ := by
  obtain ⟨c, rest, rfl⟩ := List.exists_cons_of_ne_nil h
  simp [isAbsolute]

theorem IsFront.names_append (hfront : IsFront front) (hname : '/' ∉ name) (hne : name ≠ []) :
    names ⟨String.ofList (front ++ name)⟩ =
      names ⟨String.ofList front⟩ ++ [String.ofList name] := by
  rw [hfront.join hname, names_join _ (isAbsolute_name hname), Layout.names_ofList hname hne]

theorem IsFront.isAbsolute_append (hfront : IsFront front) (hname : '/' ∉ name) :
    isAbsolute ⟨String.ofList (front ++ name)⟩ = isAbsolute ⟨String.ofList front⟩ := by
  rw [hfront.join hname, isAbsolute_join _ (isAbsolute_name hname)]

/-! ## The last name in the text -/

theorem names_append_slashes (text : List Char) (k : Nat) :
    names ⟨String.ofList (text ++ List.replicate k '/')⟩ = names ⟨String.ofList text⟩ := by
  induction k with
  | zero => rw [List.replicate_zero, List.append_nil]
  | succ k ih =>
    rw [← ih, List.replicate_succ', ← List.append_assoc]
    simp only [names, String.toList_ofList, List.splitOn_append_cons_self, List.splitOn_nil,
      List.filter_append]
    simp

theorem exists_front (text : List Char) :
    ∃ front name, text = front ++ name ∧ IsFront front ∧ '/' ∉ name := by
  refine ⟨text.rdropWhile (· ≠ '/'), text.rtakeWhile (· ≠ '/'),
    List.rdropWhile_append_rtakeWhile.symm, or_iff_not_imp_left.2 fun hne => ?_, fun hmem => ?_⟩
  · have hslash : (text.rdropWhile (· ≠ '/')).getLast hne = '/' := by
      simpa using List.rdropWhile_last_not (· ≠ '/') text hne
    have hends := List.dropLast_append_getLast hne
    rw [hslash] at hends
    exact ⟨_, hends.symm⟩
  · simpa using List.mem_rtakeWhile_imp hmem

theorem exists_slashes (text : List Char) :
    ∃ body k, text = body ++ List.replicate k '/' ∧ ∀ before, body ≠ before ++ ['/'] := by
  have hslashes : text.rtakeWhile (· == '/') =
      List.replicate (text.rtakeWhile (· == '/')).length '/' :=
    List.eq_replicate_iff.2 ⟨rfl, fun c hc => by simpa using List.mem_rtakeWhile_imp hc⟩
  refine ⟨text.rdropWhile (· == '/'), (text.rtakeWhile (· == '/')).length, ?_, ?_⟩
  · rw [← hslashes, List.rdropWhile_append_rtakeWhile]
  · intro before heq
    have hne : text.rdropWhile (· == '/') ≠ [] := by simp [heq]
    have hnot := List.rdropWhile_last_not (· == '/') text hne
    simp [heq] at hnot

/-- **The last of the names** follows the last slash, apart from slashes at the very end. -/
theorem text_of_names {start : List String} {last : String} (h : names path = start ++ [last]) :
    ∃ front k, path.text.toList = front ++ last.toList ++ List.replicate k '/' ∧ IsFront front ∧
      '/' ∉ last.toList ∧ last.toList ≠ [] ∧ names ⟨String.ofList front⟩ = start := by
  obtain ⟨body, k, htext, hbody⟩ := exists_slashes path.text.toList
  obtain ⟨front, name, rfl, hfront, hname⟩ := exists_front body
  have hnames : names path = names ⟨String.ofList (front ++ name)⟩ := by
    rw [← names_append_slashes _ k, ← htext, String.ofList_toList]
  have hne : name ≠ [] := by
    rintro rfl
    -- the text is empty but for the slashes
    obtain rfl | ⟨before, rfl⟩ := hfront
    · rw [hnames] at h
      simp [names] at h
    · exact hbody before (List.append_nil _)
  rw [hnames, hfront.names_append hname hne] at h
  obtain ⟨hstart, hlast⟩ := List.append_inj' h rfl
  obtain rfl := List.singleton_injective hlast
  refine ⟨front, k, ?_, hfront, ?_, ?_, hstart⟩ <;> rwa [String.toList_ofList]

/-! ## Extensions before slashes -/

theorem parts_append_slashes {text : List Char} (hne : text ≠ []) (hdot : text ≠ ['.']) (k : Nat) :
    parts ⟨String.ofList (text ++ List.replicate k '/')⟩ =
      ((parts ⟨String.ofList text⟩).1, (parts ⟨String.ofList text⟩).2 ++ List.replicate k []) := by
  induction k with
  | zero => simp
  | succ k ih =>
    have hne' : text ++ List.replicate k '/' ≠ [] := by simp [hne]
    have hdot' : text ++ List.replicate k '/' ≠ ['.'] := by
      cases k with
      | zero => simpa using hdot
      | succ k =>
        intro heq
        rw [List.replicate_succ', ← List.append_assoc] at heq
        have hlast := congrArg List.getLast? heq
        simp at hlast
    rw [List.replicate_succ', ← List.append_assoc, parts_append_slash hne' hdot', ih,
      List.replicate_succ', List.append_assoc]

theorem lastPiece?_append_idle (pieces : List (List Char)) (k : Nat) :
    lastPiece? (pieces ++ List.replicate k []) = lastPiece? pieces := by
  have hidle : ∀ piece ∈ List.replicate k ([] : List Char), isIdle piece = true :=
    fun piece hpiece => by rw [List.eq_of_mem_replicate hpiece]; rfl
  unfold lastPiece?
  rw [List.reverse_append, List.reverse_replicate, List.dropWhile_append_of_pos hidle]

theorem append_name_ne (hname : IsFileName name) (front : List Char) :
    front ++ name ≠ [] ∧ front ++ name ≠ ['.'] := by
  refine ⟨by simp [hname.nonempty], fun heq => ?_⟩
  rcases List.append_eq_singleton_iff.1 heq with ⟨-, hdot⟩ | ⟨-, hnil⟩
  · exact hname.dot hdot
  · exact hname.nonempty hnil

theorem fileName?_append_slashes (hfront : IsFront front) (hname : IsFileName name) (k : Nat) :
    fileName? ⟨String.ofList (front ++ name ++ List.replicate k '/')⟩ = some name := by
  obtain ⟨hne, hdot⟩ := append_name_ne hname front
  have hfile := (fileName?_append_name hfront hname).2
  unfold fileName? at hfile ⊢
  rw [parts_append_slashes hne hdot, lastPiece?_append_idle]
  exact hfile

/-- **Slashes at the end** are cut off where an extension goes to the file name's stem. -/
theorem setExtension_append_slashes (hfront : IsFront front) (hname : IsFileName name) (k : Nat)
    {stem : List Char} {extension : String} (hstem : (splitExtension name).1 = stem)
    (hextension : extension ≠ "") (hnew : IsFileName (stem ++ '.' :: extension.toList)) :
    setExtension ⟨String.ofList (front ++ name ++ List.replicate k '/')⟩ extension =
      ⟨String.ofList (front ++ (stem ++ '.' :: extension.toList))⟩ := by
  subst hstem
  obtain ⟨hne, hdot⟩ := append_name_ne hname front
  obtain ⟨hlast, hfile⟩ := fileName?_append_name hfront hname
  rw [← setExtension_append_name hfront hname hextension hnew]
  unfold setExtension
  rw [fileName?_append_slashes hfront hname, hfile, parts_append_slashes hne hdot]
  dsimp only
  rw [lastPiece?_append_idle, hlast]

/-! ## The sibling -/

theorem setExtension_append_dots (hfront : IsFront front) (extension : String) :
    setExtension ⟨String.ofList (front ++ ['.', '.'])⟩ extension =
      ⟨String.ofList (front ++ ['.', '.'])⟩ := by
  have hfile : fileName? ⟨String.ofList (front ++ ['.', '.'])⟩ = none := by
    unfold fileName?
    rw [parts_append_name hfront (by decide) (by decide)]
    simp [lastPiece?, isIdle]
  unfold setExtension
  rw [hfile]

theorem isFileName_append {stem extension : List Char} (hstem : stem ≠ []) (hslash : '/' ∉ stem)
    (hslash' : '/' ∉ extension) (hdots : stem ++ '.' :: extension ≠ ['.', '.']) :
    IsFileName (stem ++ '.' :: extension) := by
  refine ⟨by simp [hslash, hslash'], by simp, fun heq => ?_, hdots⟩
  have hlength := congrArg List.length heq
  have hpos := List.length_pos_iff.2 hstem
  simp only [List.length_append, List.length_cons, List.length_nil] at hlength
  omega

theorem append_ne_dots {stem extension : List Char} (hstem : stem ≠ []) (h : extension ≠ []) :
    stem ++ '.' :: extension ≠ ['.', '.'] := by
  intro heq
  have hlength := congrArg List.length heq
  have hpos := List.length_pos_iff.2 hstem
  have hpos' := List.length_pos_iff.2 h
  simp only [List.length_append, List.length_cons, List.length_nil] at hlength
  omega

/-- A name has no extension, or one that follows its last dot. -/
theorem splitExtension_cases (name : List Char) : splitExtension name = (name, none) ∨
    ∃ stem extension, stem ≠ [] ∧ '.' ∉ extension ∧ name = stem ++ '.' :: extension ∧
      splitExtension name = (stem, some extension) := by
  by_cases hmem : '.' ∈ name
  · obtain ⟨extension, stem, hname, hdot⟩ := List.eq_append_cons_of_mem (List.mem_reverse.2 hmem)
    have hback := congrArg List.reverse hname
    simp only [List.reverse_reverse, List.reverse_append, List.reverse_cons, List.append_assoc,
      List.singleton_append] at hback
    have hdot' : '.' ∉ extension.reverse := by simpa using hdot
    by_cases hstem : stem.reverse = []
    · left
      have htail : name.reverse.takeWhile (· ≠ '.') = extension := by
        rw [hname, List.takeWhile_append_of_pos fun c hc => ?_]
        · simp
        · exact decide_eq_true fun heq => hdot (heq ▸ hc)
      have hlength : extension.length + 1 = name.length := by simp [hback, hstem]
      unfold splitExtension
      rw [htail, ← hlength]
      simp
    · exact .inr ⟨_, _, hstem, hdot', hback, hback ▸ splitExtension_append hstem hdot'⟩
  · exact .inl (splitExtension_of_not_mem hmem)

theorem extension?_append_slashes (hfront : IsFront front) (hname : IsFileName name) (k : Nat) :
    extension? ⟨String.ofList (front ++ name ++ List.replicate k '/')⟩ =
      (splitExtension name).2.map String.ofList := by
  rw [extension?, fileName?_append_slashes hfront hname, Option.bind_some]

/-- As many characters as the extension has are slashes at the end, and then the end of it. -/
theorem take_text (front stem extension : List Char) (k : Nat) :
    (front ++ (stem ++ '.' :: extension) ++ List.replicate k '/').take
        ((front ++ (stem ++ '.' :: extension) ++ List.replicate k '/').length - extension.length) =
      front ++ (stem ++ '.' :: extension.take k) ++ List.replicate (k - extension.length) '/' := by
  have htext : front ++ (stem ++ '.' :: extension) ++ List.replicate k '/' =
      (front ++ stem ++ ['.']) ++ (extension ++ List.replicate k '/') := by simp
  have hlength : (front ++ (stem ++ '.' :: extension) ++ List.replicate k '/').length -
      extension.length = (front ++ stem ++ ['.']).length + k := by
    simp only [List.length_append, List.length_cons, List.length_nil, List.length_replicate]
    omega
  rw [hlength, htext, List.take_length_add_append, List.take_append, List.take_replicate,
    Nat.min_eq_left (Nat.sub_le _ _)]
  simp

/-- **The temporary sibling** of a file name is another name in its place. -/
theorem temporary_append_slashes (hfront : IsFront front) (hname : IsFileName name) (k : Nat) :
    ∃ sibling, sibling ≠ name ∧ sibling ≠ [] ∧ '/' ∉ sibling ∧
      Path.temporary ⟨String.ofList (front ++ name ++ List.replicate k '/')⟩ =
        ⟨String.ofList (front ++ sibling)⟩ := by
  have hextension := extension?_append_slashes hfront hname k
  rcases splitExtension_cases name with hsplit | ⟨stem, extension, hstem, hdot, rfl, hsplit⟩
  · have hnew : IsFileName (name ++ '.' :: "tmp.tmp".toList) :=
      isFileName_append hname.nonempty hname.slash (by decide)
        (append_ne_dots hname.nonempty (by decide))
    rw [hsplit, Option.map_none] at hextension
    refine ⟨name ++ '.' :: "tmp.tmp".toList, by simp, hnew.nonempty, hnew.slash, ?_⟩
    rw [Path.temporary, withExtension, hextension]
    exact setExtension_append_slashes hfront hname k (by rw [hsplit]) (by decide) hnew
  · have hslash := hname.slash
    simp only [List.mem_append, List.mem_cons, not_or] at hslash
    obtain ⟨hslash, -, hslash'⟩ := hslash
    have hshort : '.' ∉ extension.take k := fun hc => hdot (List.mem_of_mem_take hc)
    have hadded : (String.ofList extension ++ ".tmp").toList = extension ++ ".tmp".toList := by simp
    have hnew : IsFileName (stem ++ '.' :: (extension ++ ".tmp".toList)) :=
      isFileName_append hstem hslash (by simp [hslash']) (append_ne_dots hstem (by simp))
    rw [hsplit, Option.map_some] at hextension
    have hkept := take_text front stem extension k
    rw [Path.temporary, hextension, Option.getD_some, withExtension, hextension]
    simp only [String.toList_ofList, String.length_ofList, hkept]
    -- what is left of the name may be two dots, which take no extension
    by_cases hdots : stem ++ '.' :: extension.take k = ['.', '.']
    · have hk : k = 0 := by
        have htake : extension.take k = [] := by
          have hlength := congrArg List.length hdots
          have hpos := List.length_pos_iff.2 hstem
          simp only [List.length_append, List.length_cons, List.length_nil] at hlength
          exact List.length_eq_zero_iff.1 (by omega)
        refine (List.take_eq_nil_iff.1 htake).resolve_right fun hnil => hname.dots ?_
        rw [htake] at hdots
        rw [hnil, hdots]
      refine ⟨['.', '.'], hname.dots.symm, by decide, by decide, ?_⟩
      rw [hdots, hk, Nat.zero_sub, List.replicate_zero, List.append_nil]
      exact setExtension_append_dots hfront _
    · have hleft := isFileName_append hstem hslash (fun hc => hslash' (List.mem_of_mem_take hc))
        hdots
      refine ⟨stem ++ '.' :: (extension ++ ".tmp".toList), by simp, hnew.nonempty, hnew.slash, ?_⟩
      rw [setExtension_append_slashes hfront hleft _ (by rw [splitExtension_append hstem hshort])
        (by simp) (hadded ▸ hnew), hadded]

/-- **The temporary sibling of a path** that ends in a name has the same names before its own. -/
theorem temporary_of_names {start : List String} {last : String}
    (h : names path = start ++ [last]) (hdot : last ≠ ".") (hdots : last ≠ "..") :
    ∃ sibling, sibling ≠ last ∧ names (Path.temporary path) = start ++ [sibling] ∧
      (Path.temporary path).isAbsolute = path.isAbsolute := by
  obtain ⟨front, k, htext, hfront, hslash, hne, hstart⟩ := text_of_names h
  have hname : IsFileName last.toList :=
    ⟨hslash, hne, fun heq => hdot (String.toList_inj.1 heq),
      fun heq => hdots (String.toList_inj.1 heq)⟩
  obtain ⟨sibling, hother, hne', hslash', htemporary⟩ := temporary_append_slashes hfront hname k
  have hpath : path = ⟨String.ofList (front ++ last.toList ++ List.replicate k '/')⟩ :=
    ext_toList (by rw [htext, String.toList_ofList])
  rw [← hpath] at htemporary
  refine ⟨String.ofList sibling, fun heq => hother ?_, ?_, ?_⟩
  · rw [← heq, String.toList_ofList]
  · rw [htemporary, hfront.names_append hslash' hne', hstart]
  · rw [htemporary, hfront.isAbsolute_append hslash', hpath,
      isAbsolute_append (append_name_ne hname front).1, hfront.isAbsolute_append hslash]

end Mixins.Path
