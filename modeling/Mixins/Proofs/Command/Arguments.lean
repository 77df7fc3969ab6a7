import Mixins.Command.Arguments

/-!
# Command lines for inspecting

The name of the type to inspect is the value of an option. Written after an equals sign the value
may be any name; written as an argument of its own it must not look like an option, and neither must
the path be one.

* `read?_option` — an option in place of the path leaves no path.
* `parse?_inspect` — a command line for each name.
* `parse?_inspect_iff` — when the name can be an argument of its own.
-/

namespace Mixins.Command

namespace Arguments

variable {known : Grammar} {a a' : Arguments}

/-! ## Options and flags are no plain arguments -/

theorem addFlag?_plain {name : String} (h : a.addFlag? known name = some a') :
    a'.plain = a.plain := by
  unfold addFlag? at h
  split at h
  · cases h
    rfl
  · cases h

theorem addValue?_plain {name value : String} (h : a.addValue? known name value = some a') :
    a'.plain = a.plain := by
  unfold addValue? at h
  split at h
  · cases h
    rfl
  · cases h

theorem addLetters?_plain {letters : List Char} (h : a.addLetters? known letters = some a') :
    a'.plain = a.plain := by
  induction letters generalizing a with
  | nil =>
    cases h
    rfl
  | cons letter letters ih =>
    rw [addLetters?, List.foldlM_cons] at h
    obtain ⟨next, hnext, hrest⟩ := Option.bind_eq_some_iff.1 h
    obtain ⟨name, -, hflag⟩ := Option.bind_eq_some_iff.1 hnext
    exact (ih hrest).trans (addFlag?_plain hflag)

/-! ## An option with its value in the next argument -/

theorem toList_of_isOption {argument : String} (h : isOption argument = true) :
    ∃ letter letters, argument.toList = '-' :: letter :: letters := by
  rw [isOption, Bool.and_eq_true, beq_iff_eq, decide_eq_true_eq] at h
  obtain ⟨hdash, hne⟩ := h
  cases hchars : argument.toList with
  | nil => simp [hchars] at hdash
  | cons c rest =>
    obtain rfl : c = '-' := by simpa [hchars] using hdash
    cases rest with
    | nil => exact absurd (String.toList_inj.1 hchars) hne
    | cons letter letters => exact ⟨letter, letters, rfl⟩

/-- A plain argument is kept, whatever follows. -/
theorem read?_plain {argument : String} (h : isOption argument = false) (rest : List String)
    (a : Arguments) : read? known false (argument :: rest) a =
      read? known false rest { a with plain := a.plain ++ [argument] } := by
  have hnone : ∀ letter letters, argument.toList ≠ '-' :: letter :: letters := by
    intro letter letters heq
    have hne : argument ≠ "-" := by
      rintro rfl
      cases heq
    simp [isOption, heq, hne] at h
  rw [read?]
  split
  · rename_i heq
    exact absurd heq (hnone _ _)
  · rename_i heq
    exact absurd heq (hnone _ _)
  · rename_i heq
    exact absurd heq (hnone _ _)
  · rfl

theorem read?_type (hknown : hasValue known "type" = true) (value : String) (a : Arguments) :
    read? known false ["--type", value] a =
      if isOption value then none else (a.addValue? known "type" value).map (·, []) := by
  have hsplit : split? ['t', 'y', 'p', 'e'] = none := rfl
  have hword : "--type".toList = ['-', '-', 't', 'y', 'p', 'e'] := rfl
  have hname : String.ofList ['t', 'y', 'p', 'e'] = "type" := rfl
  rw [read?, hword]
  simp only [hsplit, hname, hknown, if_true, read?]
  split
  · rfl
  · cases a.addValue? known "type" value <;> rfl

theorem read?_type_plain (hknown : hasValue known "type" = true) {value : String}
    {left : List String} (h : read? known false ["--type", value] a = some (a', left)) :
    a'.plain = a.plain := by
  rw [read?_type hknown] at h
  split at h
  · cases h
  · obtain ⟨next, hnext, heq⟩ := Option.map_eq_some_iff.1 h
    cases heq
    exact addValue?_plain hnext

/-- **An option in place of a plain argument** leaves no plain argument, unless it is the two dashes
that make plain arguments of the two after it. -/
theorem read?_option (hknown : hasValue known "type" = true) {argument value : String}
    (hoption : isOption argument = true) {left : List String}
    (h : read? known false [argument, "--type", value] a = some (a', left)) :
    a'.plain = a.plain ∨ a'.plain = a.plain ++ ["--type", value] := by
  rw [read?] at h
  split at h
  · -- the two dashes
    cases h
    exact .inr rfl
  · split at h
    · -- an option with its value behind an equals sign
      obtain ⟨next, hnext, hrest⟩ := Option.bind_eq_some_iff.1 h
      exact .inl ((read?_type_plain hknown hrest).trans (addValue?_plain hnext))
    · rename_i name _ _ _ _
      dsimp only at h
      by_cases hvalued : hasValue known (String.ofList name) = true
      · -- the next option would be its value
        rw [if_pos hvalued] at h
        cases h
      · rw [if_neg hvalued] at h
        obtain ⟨next, hnext, hrest⟩ := Option.bind_eq_some_iff.1 h
        exact .inl ((read?_type_plain hknown hrest).trans (addFlag?_plain hnext))
  · obtain ⟨next, hnext, hrest⟩ := Option.bind_eq_some_iff.1 h
    exact .inl ((read?_type_plain hknown hrest).trans (addLetters?_plain hnext))
  · rename_i _ _ hletters
    obtain ⟨letter, letters, heq⟩ := toList_of_isOption hoption
    exact absurd heq (hletters letter letters)

end Arguments

open Arguments

/-! ## Inspecting -/

variable {path : Path}

/-- The options of the command. -/
def inspecting : Grammar := general.extended [] ["type"] []

theorem ofArguments?_inspect_plain {a : Arguments} {command : Command}
    (h : ofArguments? "inspect" a = some command) : ∃ path, a.plain = [path] := by
  obtain ⟨flags, values, plain⟩ := a
  match plain with
  | [path] => exact ⟨path, rfl⟩
  | [] | _ :: _ :: _ => cases h

/-- With a path and the option the command is to inspect the type. -/
theorem ofArguments?_inspect (hpath : path.text ≠ "") (name : String) :
    ofArguments? "inspect" ⟨[], [("type", name)], [path.text]⟩ =
      some (.inspect path (some name)) := by
  have hplace : path? path.text = some path := if_neg hpath
  change (path? path.text).bind (fun path => some (Command.inspect path (some name))) = _
  rw [hplace]
  rfl

theorem parse?_inspect_eq (arguments : List String) : parse? ("inspect" :: arguments) =
    (read? inspecting false arguments .empty).bind fun (after, _) =>
      (checkGeneral after).bind fun _ => (ofArguments? "inspect" after).bind fun command =>
        some ⟨command, after.flag "json"⟩ := by
  have hbefore : read? general true ("inspect" :: arguments) .empty =
      some (.empty, "inspect" :: arguments) := by
    rw [read?]
    rfl
  rw [parse?, hbefore]
  have hgrammar : grammarOf? "inspect" = some inspecting := rfl
  simp only [Option.bind_eq_bind, Option.bind_some, hgrammar]
  rfl

/-- A command line for each name, with the value of the option after an equals sign. -/
theorem parse?_inspect (hpath : path.text ≠ "") (name : String) :
    parse? ["inspect", "--type=" ++ name, "--", path.text] =
      some ⟨.inspect path (some name), false⟩ := by
  have hoption : ("--type=" ++ name).toList =
      '-' :: '-' :: 't' :: 'y' :: 'p' :: 'e' :: '=' :: name.toList := by
    simp
  have hsplit : split? ('t' :: 'y' :: 'p' :: 'e' :: '=' :: name.toList) = some ("type", name) := by
    simp [split?, Text.before, Text.dropWord]
  have hafter : read? inspecting false ["--type=" ++ name, "--", path.text] .empty =
      some (⟨[], [("type", name)], [path.text]⟩, []) := by
    rw [read?, hoption]
    simp only [hsplit]
    rfl
  rw [parse?_inspect_eq, hafter]
  simp only [Option.bind_some, ofArguments?_inspect hpath]
  rfl

/-- **The name as an argument of its own** is understood just if neither the path nor the name looks
like an option. -/
theorem parse?_inspect_iff (hpath : path.text ≠ "") (name : String) :
    parse? ["inspect", path.text, "--type", name] = some ⟨.inspect path (some name), false⟩ ↔
      isOption path.text = false ∧ isOption name = false := by
  have hknown : hasValue inspecting "type" = true := by decide
  rw [parse?_inspect_eq]
  constructor
  · intro h
    obtain ⟨⟨after, left⟩, hread, hrest⟩ := Option.bind_eq_some_iff.1 h
    obtain ⟨-, -, hcommand⟩ := Option.bind_eq_some_iff.1 hrest
    obtain ⟨command, hcommand, -⟩ := Option.bind_eq_some_iff.1 hcommand
    obtain ⟨text, hplain⟩ := ofArguments?_inspect_plain hcommand
    have hoption : isOption path.text = false := by
      rw [← Bool.not_eq_true]
      intro hoption
      -- there would be none or two plain arguments
      rcases read?_option hknown hoption hread with heq | heq <;>
        simp [heq, Arguments.empty] at hplain
    rw [read?_plain hoption, read?_type hknown] at hread
    refine ⟨hoption, ?_⟩
    rw [← Bool.not_eq_true]
    intro hname
    rw [if_pos hname] at hread
    cases hread
  · rintro ⟨hoption, hname⟩
    have hread : read? inspecting false [path.text, "--type", name] .empty =
        some (⟨[], [("type", name)], [path.text]⟩, []) := by
      rw [read?_plain hoption, read?_type hknown, hname]
      rfl
    rw [hread]
    simp only [Option.bind_some, ofArguments?_inspect hpath]
    rfl

end Mixins.Command
