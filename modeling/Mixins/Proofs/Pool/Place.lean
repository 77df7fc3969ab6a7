import Mixins.Proofs.OutputRoot
import Mixins.Proofs.Pool.Alike

/-!
# A type of the pool in its place

A type is looked up in the pool either to read it or to change it. The second look-up walks down to
the type by steps of its own and comes to a place: the type that is there, and the pool that there
is with another type in its stead. It comes to the type that the first one finds, and the pool with
the other type is the one that `put` makes. So a change is seen under every name that leads to the
place, and only by those who ask for the changed type, for one around it or for one below it.

* `Place.down?_eq` — the walk down to a place against `descendant?` and `modifyDescendant?`.
* `place_cases` — both look-ups answer alike and leave the same pool.
* `put_changedOnly` — what a change leaves as it was.
* `place_lens` — the look-up to change a type is a lens.
-/

namespace Mixins

/-- Something in its place: the item, and the whole with another item in its stead. -/
structure Place (α β : Type) where
  item : β
  fill : β → α

namespace Place

variable {α β : Type} {p : β → Bool}

/-- The place of the first item of which `p` holds. -/
def first? (p : β → Bool) : List β → Option (Place (List β) β)
  | [] => none
  | x :: xs =>
    if p x then some ⟨x, fun x' => x' :: xs⟩
    else (first? p xs).map fun place => ⟨place.item, fun x' => x :: place.fill x'⟩

theorem first?_of_split {before after : List β} {x : β} (first : ∀ y ∈ before, p y = false)
    (hx : p x = true) :
    first? p (before ++ x :: after) = some ⟨x, fun x' => before ++ x' :: after⟩ := by
  induction before with
  | nil => simp [first?, hx]
  | cons y before ih =>
    obtain ⟨hy, hbefore⟩ := List.forall_mem_cons.1 first
    simp [first?, hy, ih hbefore]

theorem first?_eq_none {xs : List β} (h : ∀ y ∈ xs, p y = false) : first? p xs = none := by
  induction xs with
  | nil => rfl
  | cons y xs ih =>
    obtain ⟨hy, hxs⟩ := List.forall_mem_cons.1 h
    simp [first?, hy, ih hxs]

/-- The place of the type that `nestedType?` finds. -/
def nested? (t : TypeDef) (inner : String) : Option (Place TypeDef TypeDef) :=
  (first? (·.innerName == inner) t.nested).map fun place =>
    ⟨place.item, fun n => { t with nested := place.fill n }⟩

/-- The place reached from a type in its place by going down through the declared names. -/
def down? (place : Place α TypeDef) : List String → Option (Place α TypeDef)
  | [] => some place
  | inner :: chain =>
    (nested? place.item inner).bind fun n => down? ⟨n.item, fun t => place.fill (n.fill t)⟩ chain

/-- **The walk down to a place** comes to the type that `descendant?` finds, and filling the place
is what `modifyDescendant?` does. -/
theorem down?_eq (place : Place α TypeDef) (chain : List String) :
    place.down? chain = (place.item.descendant? chain).map fun x =>
      ⟨x, fun x' =>
        place.fill ((place.item.modifyDescendant? (fun _ => x') chain).getD place.item)⟩ := by
  induction chain generalizing place with
  | nil => rfl
  | cons inner chain ih =>
    obtain ⟨⟨d, nested⟩, fill⟩ := place
    rcases Merge.split_or_new nested inner with ⟨before, n, after, rfl, first, same⟩ | new
    · have hplace : nested? ⟨d, before ++ n :: after⟩ inner =
          some ⟨n, fun n' => ⟨d, before ++ n' :: after⟩⟩ := by
        rw [nested?, first?_of_split (fun y hy => by simpa using first y hy) (by simpa),
          Option.map_some]
      have hmodify : ∀ f, TypeDef.modifyDescendant? ⟨d, before ++ n :: after⟩ f (inner :: chain) =
          (n.modifyDescendant? f chain).map fun n' => ⟨d, before ++ n' :: after⟩ :=
        fun f => TypeDef.modifyDescendant?_of_split rfl first same
      -- If there is no type at the end of the chain, both sides fill in what was there.
      have hfill : ∀ n? : Option TypeDef, fill ⟨d, before ++ n?.getD n :: after⟩ =
          fill ((n?.map fun n' => ⟨d, before ++ n' :: after⟩).getD ⟨d, before ++ n :: after⟩)
        | some n' => rfl
        | none => rfl
      rw [down?, hplace, Option.bind_some, ih, TypeDef.descendant?_of_split rfl first same]
      simp only [hmodify, hfill]
    · have hplace : nested? ⟨d, nested⟩ inner = none := by
        rw [nested?, first?_eq_none fun y hy => by simpa using new y hy, Option.map_none]
      have hnone : TypeDef.nestedType? ⟨d, nested⟩ inner = none :=
        List.find?_eq_none.2 fun y hy => by simpa using new y hy
      rw [down?, hplace, Option.bind_none, TypeDef.descendant?, hnone, Option.bind_none,
        Option.map_none]

end Place

namespace Pool

variable {files : FileTree} {p q : Pool} {name outer : String} {t t' : TypeDef}

/-- The place of a resident type. -/
def residentPlace? (p : Pool) (outer : String) : Option (Place Pool TypeDef) :=
  (Place.first? (·.1 == outer) p.types).map fun entry =>
    ⟨entry.item.2, fun t => { p with types := entry.fill (entry.item.1, t) }⟩

/-- The place of the type of the given name, for a change that the pool is to keep. -/
def place (files : FileTree) (p : Pool) (name : String) :
    Except Failure (Place Pool TypeDef) × Pool :=
  match p.withResident files name with
  | .error cause => (.error cause, p)
  | .ok p =>
    match (p.residentPlace? (Name.outermost name)).bind (·.down? (Name.chain name)) with
    | some place => (.ok place, p)
    | none => (.error (.notFound name), p)

/-- In the place of a resident type another one becomes resident, and no other changes. -/
theorem residentPlace?_of_resident {whole : TypeDef} (h : p.residentType? outer = some whole) :
    ∃ fill, p.residentPlace? outer = some ⟨whole, fill⟩ ∧ ∀ whole',
      (fill whole').sources = p.sources ∧ ∀ other, (fill whole').residentType? other =
        if other = outer then some whole' else p.residentType? other := by
  obtain ⟨before, after, split, first⟩ := List.lookup_eq_some_iff.1 h
  refine ⟨fun t => { p with types := before ++ (outer, t) :: after }, ?_, fun whole' =>
    ⟨rfl, fun other => ?_⟩⟩
  · have hfirst : ∀ e ∈ before, (e.1 == outer) = false := fun e he =>
      beq_false_of_ne (Ne.symm (bne_iff_ne.1 (first e he)))
    rw [residentPlace?, split, Place.first?_of_split hfirst (by simp), Option.map_some]
  · have hbefore : before.lookup outer = none :=
      List.lookup_eq_none_iff.2 first
    simp only [residentType?, split, List.lookup_append]
    split_ifs with hother
    · subst hother
      simp [hbefore]
    · simp [List.lookup_cons, beq_false_of_ne hother]

/-- Whether the pools have the same sources and the same resident types. -/
structure SameTypes (p q : Pool) : Prop where
  sources : p.sources = q.sources
  resident : ∀ outer, p.residentType? outer = q.residentType? outer

theorem SameTypes.load_fst (h : SameTypes p q) (files : FileTree) (name : String) :
    (p.load files name).1 = (q.load files name).1 := by
  rw [Pool.load_fst, Pool.load_fst, type?, type?, h.resident, h.sources]

/-- **The look-up for a change** leaves the same pool as `load`. It fails alike or comes to the
place of the type that `load` finds, and the pool with another type there is the one that `put`
makes. -/
theorem place_cases (files : FileTree) (p : Pool) (name : String) :
    (p.place files name).2 = (p.load files name).2 ∧
      ((∃ cause, (p.place files name).1 = .error cause ∧ (p.load files name).1 = .error cause) ∨
        ∃ place, (p.place files name).1 = .ok place ∧ (p.load files name).1 = .ok place.item ∧
          ∀ t, SameTypes (place.fill t) ((p.load files name).2.put name t)) := by
  unfold Pool.place load
  cases hp : p.withResident files name with
  | error cause => exact ⟨rfl, .inl ⟨cause, rfl, rfl⟩⟩
  | ok p₁ =>
    obtain ⟨⟨whole, hwhole, -⟩, -⟩ := withResident_eq_ok hp
    obtain ⟨fill, hplace, hfill⟩ := residentPlace?_of_resident hwhole
    simp only [hplace, hwhole, Option.bind_some, Place.down?_eq]
    cases hpart : whole.descendant? (Name.chain name) with
    | none => exact ⟨rfl, .inl ⟨_, rfl, rfl⟩⟩
    | some t =>
      refine ⟨rfl, .inr ⟨_, rfl, rfl, fun t' => ⟨(hfill _).1, fun outer => ?_⟩⟩⟩
      rw [(hfill _).2, residentType?_put]
      split_ifs with houter
      · rw [houter, hwhole, Option.map_some, replaceAt, if_pos rfl]
      · cases p₁.residentType? outer <;> simp [replaceAt, houter]

/-! ## What a change leaves -/

/-- Whether in `q` the type of the given name is `t'`, in place of the `t` that `p` has there, and
all else is as it was. -/
structure ChangedOnly (files : FileTree) (name : String) (t t' : TypeDef) (p q : Pool) : Prop where
  /-- The changed type is found under each name of the place, however it is spelled. -/
  found : ∀ other, Name.outermost other = Name.outermost name →
    Name.chain other = Name.chain name → (q.load files other).1 = .ok t'
  /-- No other type is found changed, unless it lies around the changed one or below it. -/
  apart : ∀ other, Name.outermost other ≠ Name.outermost name ∨
    ¬ Name.chain name <+: Name.chain other ∧ ¬ Name.chain other <+: Name.chain name →
      (q.load files other).1 = (p.load files other).1
  /-- The resident type around it has no other change, not even in a type that no name leads to. -/
  around : ∃ whole whole', p.type? files (Name.outermost name) = .ok (some whole) ∧
    q.residentType? (Name.outermost name) = some whole' ∧
    TypeDef.Substituted t t' whole whole'
  /-- The other resident types stay. -/
  others : ∀ outer, outer ≠ Name.outermost name → q.residentType? outer = p.residentType? outer

theorem ChangedOnly.congr {q' : Pool} (h : ChangedOnly files name t t' p q)
    (hq : SameTypes q' q) : ChangedOnly files name t t' p q' where
  found other houter hchain := by
    rw [hq.load_fst]
    exact h.found other houter hchain
  apart other hother := by
    rw [hq.load_fst]
    exact h.apart other hother
  around := by
    rw [hq.resident]
    exact h.around
  others outer houter := by
    rw [hq.resident]
    exact h.others outer houter

/-- **Putting a type** of the same name in place of the one that was loaded changes nothing else. -/
theorem put_changedOnly (h : p.load files name = (.ok t, q)) (hname : t'.name = t.name) :
    ChangedOnly files name t t' p (q.put name t') := by
  have hkept : ∀ outer, q.type? files outer = p.type? files outer := fun outer => by
    have hagree := load_agree files (fun _ => True) p name
    rw [h] at hagree
    exact hagree.types outer trivial
  obtain ⟨whole, hwhole, htype⟩ := load_resident h
  have hpart : whole.descendant? (Name.chain name) = some t := by
    have hfound := load_eq_ok h
    rwa [hwhole, Option.bind_some] at hfound
  obtain ⟨whole', hmodify, hfound⟩ :=
    TypeDef.descendant?_modifyDescendant? (f := fun _ => t') hpart hname
  have hput : (q.put name t').residentType? (Name.outermost name) = some whole' := by
    rw [residentType?_put, hwhole, Option.map_some, replaceAt, if_pos rfl, hmodify,
      Option.getD_some]
  have hsame : ∀ x, whole.descendant? (Name.chain name) = some x → t'.name = x.name := by
    intro x hx
    rw [hname, Option.some.inj (hpart.symm.trans hx)]
  constructor
  · intro other houter hchain
    rw [load_fst, houter, type?_of_resident hput, answer_eq_ok_iff]
    exact ⟨whole', rfl, hchain ▸ hfound⟩
  · intro other hother
    rw [load_fst, load_fst]
    by_cases houter : Name.outermost other = Name.outermost name
    · obtain ⟨hbelow, haround⟩ := hother.resolve_left fun hne => hne houter
      have hpath := TypeDef.descendant?_modifyDescendant?_of_apart hsame hmodify hbelow haround
      simp only [houter, type?_of_resident hput, htype, answer, Option.bind_some, hpath]
    · rw [(put_agree files q name t').types _ houter, hkept]
  · exact ⟨whole, whole', htype, hput, .modifyDescendant? hpart hmodify⟩
  · intro outer houter
    have hload := residentType?_load_of_ne files p houter
    rw [h] at hload
    rw [residentType?_put_of_ne q houter, hload]

/-- **The look-up for a change is a lens.** It answers as `load` does, and with a type of the same
name in the place that it comes to, or put in by the name, the pool is changed there and nowhere
else. -/
theorem place_lens (files : FileTree) (p : Pool) (name : String) :
    ((p.place files name).1.map (·.item), (p.place files name).2) = p.load files name ∧
      ∀ place t', (p.place files name).1 = .ok place → t'.name = place.item.name →
        ChangedOnly files name place.item t' p (place.fill t') ∧
        ChangedOnly files name place.item t' p ((p.load files name).2.put name t') := by
  obtain ⟨hpool, ⟨cause, hplace, hload⟩ | ⟨place, hplace, hload, hfill⟩⟩ := place_cases files p name
  · refine ⟨Prod.ext ?_ hpool, fun place t' h => ?_⟩
    · rw [hplace, hload]
      rfl
    · rw [hplace] at h
      cases h
  · refine ⟨Prod.ext ?_ hpool, fun found t' h hname => ?_⟩
    · rw [hplace, hload]
      rfl
    · obtain rfl : place = found := Except.ok.inj (hplace.symm.trans h)
      have hput : ChangedOnly files name place.item t' p ((p.load files name).2.put name t') :=
        put_changedOnly (Prod.ext hload rfl) hname
      exact ⟨hput.congr (hfill t'), hput⟩

/-- A type with two nested types of one name, and another one. -/
def doubled : TypeDef :=
  { TypeDef.bare "u.T" .classType with
    nested := [.bare "u.T$I" .classType, .bare "u.T$I" .enumType, .bare "u.T$J" .classType] }

def doubledTree : FileTree := OutputRoot.storing [(⟨⟨"m"⟩⟩, doubled)]

/-- The first of the two is given an interface by a name with an empty segment, and is found so by
its own. -/
theorem place_lens_doubled :
    let p := Pool.ofSources [.directory ⟨"m"⟩]
    let found := TypeDef.bare "u.T$I" .classType
    let changed := { found with interfaces := ["u.M"] }
    ∃ place, (p.place doubledTree "u.T$$I").1 = .ok place ∧ place.item = found ∧
      ((place.fill changed).load doubledTree "u.T$I").1 = .ok changed ∧
      ((place.fill changed).load doubledTree "u.T$J").1 = .ok (.bare "u.T$J" .classType) := by
  intro p found changed
  have hload : (p.load doubledTree "u.T$$I").1 = .ok found := by decide +kernel
  have hother : (p.load doubledTree "u.T$J").1 = .ok (.bare "u.T$J" .classType) := by
    decide +kernel
  obtain ⟨hsame, hlens⟩ := place_lens doubledTree p "u.T$$I"
  have hitem : (p.place doubledTree "u.T$$I").1.map (·.item) = .ok found :=
    (congrArg Prod.fst hsame).trans hload
  cases hplace : (p.place doubledTree "u.T$$I").1 with
  | error cause =>
    rw [hplace] at hitem
    cases hitem
  | ok place =>
    rw [hplace] at hitem
    have hfound : place.item = found := Except.ok.inj hitem
    obtain ⟨hchanged, -⟩ := hlens place changed hplace (by rw [hfound])
    refine ⟨place, rfl, hfound, hchanged.found _ (by decide) (by decide), ?_⟩
    rw [hchanged.apart _ (.inr (by decide)), hother]

end Pool

end Mixins
