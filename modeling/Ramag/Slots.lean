import Ramag.Fields

/-!
Texts with slots: names between braces. Replacing the slots one after another in
the text gives the text with every slot filled, as long as no brace that opens
stands in front of one that closes in what is put there (`replace_fill`).
-/
namespace Ramag.Slots
open Strings Fields List
open scoped List

/-- `str::replace` of a text that is not empty, where some characters still belong to the last match. -/
def replaceFrom (old new : Text) : Nat → Text → Text
  | _, [] => []
  | skip + 1, _ :: t => replaceFrom old new skip t
  | 0, c :: t => if old.isPrefixOf (c :: t) then new ++ replaceFrom old new (old.length - 1) t else c :: replaceFrom old new 0 t

def replaceText (old new t : Text) : Text := replaceFrom old new 0 t

theorem replaceFrom_skip (old new : Text) (gap t : Text) : replaceFrom old new gap.length (gap ++ t) = replaceText old new t := by
  induction gap with
  | nil => rfl
  | cons c gap ih => exact ih

variable {old : Text}

theorem replaceText_match (held : old ≠ []) (new t : Text) : replaceText old new (old ++ t) = new ++ replaceText old new t := by
  cases old with
  | nil => exact absurd rfl held
  | cons c old =>
    have front : (c :: old).isPrefixOf (c :: (old ++ t)) = true := isPrefixOf_iff_prefix.mpr ⟨t, rfl⟩
    show replaceFrom (c :: old) new 0 (c :: (old ++ t)) = _
    rw [replaceFrom, if_pos front, show (c :: old).length - 1 = old.length from rfl, replaceFrom_skip]

variable {t : Text}

theorem replaceText_pass {c : Char} (other : ¬ old <+: c :: t) (new : Text) : replaceText old new (c :: t) = c :: replaceText old new t := by
  have none : old.isPrefixOf (c :: t) = false := by
    rw [Bool.eq_false_iff]
    exact fun front => other ( isPrefixOf_iff_prefix.mp front)
  show replaceFrom old new 0 (c :: t) = _
  rw [replaceFrom, none]
  rfl

/-- Characters that a match cannot begin with are passed. -/
theorem replaceText_free {first : Char} {gap : Text} (free : first ∉ gap) (new t : Text) :
    replaceText (first :: old) new (gap ++ t) = gap ++ replaceText (first :: old) new t := by
  induction gap with
  | nil => rfl
  | cons c gap ih =>
    have other : ¬ first :: old <+: c :: (gap ++ t) := fun front => free ((cons_prefix_cons.mp front).1 ▸ mem_cons_self)
    rw [cons_append, replaceText_pass other, ih fun mem => free (mem_cons_of_mem c mem)]
    rfl

def slotText (name : Text) : Text := '\x7b' :: name ++ ['\x7d']

/-- No brace is part of the name. -/
def IsName (name : Text) : Prop := '\x7b' ∉ name ∧ '\x7d' ∉ name

inductive Token
  | fixed (c : Char)
  | slot (name : Text)
  deriving DecidableEq

def Token.text : Token → Text
  | .fixed c => [c]
  | .slot name => slotText name

def render (tokens : List Token) : Text := tokens.flatMap Token.text

/-- The slots of a text, where the name of one may have begun. -/
def scan : Option Text → Text → List Token
  | none, [] => []
  | some name, [] => ('\x7b' :: name).map .fixed
  | none, c :: t => if c = '\x7b' then scan (some []) t else .fixed c :: scan none t
  | some name, c :: t =>
    if c = '\x7d' then .slot name :: scan none t
    else if c = '\x7b' then ('\x7b' :: name).map .fixed ++ scan (some []) t
    else scan (some (name ++ [c])) t

def slotName : Token → Option Text
  | .fixed _ => none
  | .slot name => some name

/-- The names of the slots of a text. -/
def slots (t : Text) : List Text := (scan none t).filterMap slotName

theorem render_fixed (t : Text) : render (t.map .fixed) = t := by
  induction t with
  | nil => rfl
  | cons c t ih => exact congrArg (c :: ·) ih

theorem render_append (first second : List Token) : render (first ++ second) = render first ++ render second := flatMap_append

theorem render_scan (opened : Option Text) (t : Text) : render (scan opened t) = (opened.map ('\x7b' :: ·)).getD [] ++ t := by
  induction t generalizing opened with
  | nil =>
    cases opened with
    | none => rfl
    | some name => exact (render_fixed _).trans (append_nil _).symm
  | cons c t ih =>
    cases opened with
    | none =>
      rw [scan]
      split_ifs with brace
      · rw [ih, brace]
        rfl
      · exact congrArg (c :: ·) (ih none)
    | some name =>
      rw [scan]
      split_ifs with close brace
      · have rest := ih none
        show slotText name ++ render (scan none t) = _
        rw [rest, close]
        simp [slotText]
      · rw [render_append, render_fixed, ih, brace]
        rfl
      · rw [ih]
        simp

theorem scan_names (opened : Option Text) (t : Text) (held : ∀ name ∈ opened, IsName name) : ∀ name, .slot name ∈ scan opened t → IsName name := by
  induction t generalizing opened with
  | nil =>
    intro name mem
    cases opened with
    | none => cases mem
    | some begun =>
      obtain ⟨c, -, same⟩ := mem_map.mp mem
      cases same
  | cons c t ih =>
    intro name mem
    cases opened with
    | none =>
      rw [scan] at mem
      split_ifs at mem
      · exact ih (some []) (fun _ same => by cases same; exact ⟨not_mem_nil, not_mem_nil⟩) name mem
      · rcases mem_cons.mp mem with same | rest
        · cases same
        · exact ih none (fun _ absent => (by cases absent)) name rest
    | some begun =>
      rw [scan] at mem
      split_ifs at mem with close brace
      · rcases mem_cons.mp mem with same | rest
        · rw [Token.slot.inj same]
          exact held begun rfl
        · exact ih none (fun _ absent => (by cases absent)) name rest
      · rcases mem_append.mp mem with fixed | rest
        · obtain ⟨_, -, same⟩ := mem_map.mp fixed
          cases same
        · exact ih (some []) (fun _ same => by cases same; exact ⟨not_mem_nil, not_mem_nil⟩) name rest
      · refine ih (some (begun ++ [c])) (fun _ same => ?_) name mem
        cases same
        obtain ⟨free, free'⟩ := held begun rfl
        simp only [IsName, mem_append, mem_singleton, not_or]
        exact ⟨⟨free, fun same => brace same.symm⟩, free', fun same => close same.symm⟩

variable {name : Text}

theorem slots_names (slot : name ∈ slots t) : IsName name := by
  obtain ⟨token, mem, named⟩ := mem_filterMap.mp slot
  cases token with
  | fixed c => cases named
  | slot other =>
    cases named
    exact scan_names none t (fun _ absent => (by cases absent)) name mem

/-- The slots of a name, filled. -/
def fill (name value : Text) (tokens : List Token) : List Token :=
  tokens.flatMap fun token => if token = .slot name then value.map .fixed else [token]

/-- What is not a slot. -/
def fixedText (tokens : List Token) : Text :=
  tokens.flatMap fun token => match token with
    | .fixed c => [c]
    | .slot _ => []

/-- A brace that opens stands in front of one that closes. -/
def hasPair (t : Text) : Bool := (t.dropWhile (· ≠ '\x7b')).contains '\x7d'

theorem hasPair_iff : hasPair t = true ↔ ['\x7b', '\x7d'] <+ t := by
  rw [hasPair, contains_iff_mem]
  induction t with
  | nil => simp
  | cons c t ih =>
    by_cases brace : c = '\x7b'
    · rw [dropWhile_cons_of_neg (by simp [brace]), brace, cons_sublist_cons, singleton_sublist]
      simp
    rw [dropWhile_cons_of_pos (by simp [brace]), ih]
    constructor
    · exact fun inside => inside.cons c
    intro inside
    cases inside with
    | cons _ rest => exact rest
    | cons_cons _ rest => exact absurd rfl brace

@[simp] theorem fixedText_cons_fixed (c : Char) (tokens : List Token) : fixedText (.fixed c :: tokens) = c :: fixedText tokens := rfl
@[simp] theorem render_cons (token : Token) (tokens : List Token) : render (token :: tokens) = token.text ++ render tokens := rfl

theorem fixedText_append (first second : List Token) : fixedText (first ++ second) = fixedText first ++ fixedText second :=
  flatMap_append

theorem fixedText_fixed (t : Text) : fixedText (t.map .fixed) = t := by
  induction t with
  | nil => rfl
  | cons c t ih => exact congrArg (c :: ·) ih

theorem fill_cons (name value : Text) (token : Token) (tokens : List Token) : fill name value (token :: tokens) =
    (if token = .slot name then value.map .fixed else [token]) ++ fill name value tokens := rfl

/-- Filling puts text between what is there. -/
theorem fixedText_fill (name value : Text) (tokens : List Token) : fixedText tokens <+ fixedText (fill name value tokens) := by
  induction tokens with
  | nil => exact List.Sublist.refl _
  | cons token tokens ih =>
    rw [fill_cons, fixedText_append]
    cases token with
    | fixed c => exact ih.cons_cons c
    | slot other => exact ih.trans (sublist_append_right _ _)

variable {tokens : List Token}

/-- A name that is closed in the text is closed by a brace that is no slot's. -/
theorem close_fixed (isName : IsName name) (front : name ++ ['\x7d'] <+: render tokens) : '\x7d' ∈ fixedText tokens := by
  induction tokens generalizing name with
  | nil => simp [render] at front
  | cons token tokens ih =>
    cases token with
    | fixed c =>
      cases name with
      | nil =>
        rw [(cons_prefix_cons.mp front).1]
        exact mem_cons_self
      | cons d name =>
        have rest : name ++ ['\x7d'] <+: render tokens := (cons_prefix_cons.mp front).2
        exact mem_cons_of_mem _ (ih ⟨fun mem => isName.1 (mem_cons_of_mem _ mem), fun mem => isName.2 (mem_cons_of_mem _ mem)⟩ rest)
    | slot other =>
      cases name with
      | nil => exact absurd (cons_prefix_cons.mp front).1 (by decide)
      | cons d name =>
        have first : d = '\x7b' := (cons_prefix_cons.mp front).1
        exact absurd (first ▸ mem_cons_self) isName.1

variable {other : Text}

theorem slotText_unique {back : Text} (isName : IsName name) (isOther : IsName other)
    (front : slotText name <+: slotText other ++ back) : name = other := by
  obtain ⟨rest, same⟩ := front
  have inside : name ++ '\x7d' :: rest = other ++ '\x7d' :: back := by
    have tails := (List.cons.inj same).2
    simpa using tails
  have cut := splitOnce_part isName.2 rest
  rw [inside, splitOnce_part isOther.2] at cut
  exact (congrArg Prod.fst (Option.some.inj cut)).symm

theorem slotText_pass (isName : IsName name) (isOther : IsName other) (different : name ≠ other) (value back : Text) :
    replaceText (slotText name) value (slotText other ++ back) = slotText other ++ replaceText (slotText name) value back := by
  have first : ¬ slotText name <+: '\x7b' :: ((other ++ ['\x7d']) ++ back) := fun front => different (slotText_unique isName isOther front)
  have free : '\x7b' ∉ other ++ ['\x7d'] := by
    simp only [mem_append, mem_singleton, not_or]
    exact ⟨isOther.1, by decide⟩
  show replaceText _ _ ('\x7b' :: ((other ++ ['\x7d']) ++ back)) = _
  rw [replaceText_pass first]
  exact congrArg ('\x7b' :: ·) (replaceText_free free value back)

theorem slotText_match (name value back : Text) :
    replaceText (slotText name) value (slotText name ++ back) = value ++ replaceText (slotText name) value back :=
  replaceText_match (cons_ne_nil _ _) value back

/-- Replacing a slot's text fills the slots. -/
theorem replace_fill (isName : IsName name) (value : Text)
    (names : ∀ other, .slot other ∈ tokens → IsName other) (clear : ¬ ['\x7b', '\x7d'] <+ fixedText tokens) :
    replaceText (slotText name) value (render tokens) = render (fill name value tokens) := by
  induction tokens with
  | nil => rfl
  | cons token tokens ih =>
    have rest : ¬ ['\x7b', '\x7d'] <+ fixedText tokens := by
      intro pair
      cases token with
      | fixed c => exact clear (pair.cons c)
      | slot other => exact clear pair
    have behind := ih (fun other mem => names other (mem_cons_of_mem _ mem)) rest
    rw [fill_cons, render_append, ← behind, render_cons]
    cases token with
    | fixed c =>
      refine replaceText_pass (fun front => ?_) value
      obtain ⟨brace, inside⟩ := cons_prefix_cons.mp front
      have closed : '\x7d' ∈ fixedText tokens := close_fixed isName inside
      refine clear ?_
      rw [fixedText_cons_fixed, ← brace]
      exact (singleton_sublist.mpr closed).cons_cons _
    | slot other =>
      by_cases same : other = name
      · subst same
        rw [if_pos rfl, render_fixed]
        exact slotText_match other value _
      · rw [if_neg fun slot => same (Token.slot.inj slot)]
        have kept := slotText_pass isName (names other mem_cons_self) (Ne.symm same) value (render tokens)
        exact kept.trans (by simp [render, Token.text])

/-! ### All slots -/

def fillAll (values : List (Text × Text)) (tokens : List Token) : List Token :=
  values.foldl (fun tokens value => fill value.1 value.2 tokens) tokens

theorem fixedText_fillAll (values : List (Text × Text)) (tokens : List Token) : fixedText tokens <+ fixedText (fillAll values tokens) := by
  induction values generalizing tokens with
  | nil => exact List.Sublist.refl _
  | cons value values ih => exact (fixedText_fill value.1 value.2 tokens).trans (ih _)

theorem fill_slots {value : Text} (mem : .slot other ∈ fill name value tokens) : .slot other ∈ tokens := by
  obtain ⟨token, listed, inside⟩ := mem_flatMap.mp mem
  split_ifs at inside
  · obtain ⟨_, -, same⟩ := mem_map.mp inside
    cases same
  · rwa [mem_singleton.mp inside]

variable {values : List (Text × Text)}

/-- Replacing one after another fills all slots. -/
theorem replace_fillAll (isNames : ∀ value ∈ values, IsName value.1)
    (names : ∀ other, .slot other ∈ tokens → IsName other) (clear : ¬ ['\x7b', '\x7d'] <+ fixedText (fillAll values tokens)) :
    values.foldl (fun t value => replaceText (slotText value.1) value.2 t) (render tokens) = render (fillAll values tokens) := by
  induction values generalizing tokens with
  | nil => rfl
  | cons value values ih =>
    have first : ¬ ['\x7b', '\x7d'] <+ fixedText tokens := fun pair => clear (pair.trans (fixedText_fillAll _ _))
    rw [foldl_cons, replace_fill (isNames value mem_cons_self) value.2 names first]
    exact ih (fun other mem => isNames other (mem_cons_of_mem _ mem)) (fun other mem => names other (fill_slots mem)) clear

/-- The text with a value for each slot. -/
def filled (value : Text → Text) (tokens : List Token) : Text :=
  tokens.flatMap fun token => match token with
    | .fixed c => [c]
    | .slot name => value name

/-- A slot is filled with the first value of its name. -/
theorem fillAll_tokens (values : List (Text × Text)) (tokens : List Token) : fillAll values tokens = tokens.flatMap fun token => match token with
      | .fixed c => [.fixed c]
      | .slot name => ((values.lookup name).map fun value => value.map Token.fixed).getD [.slot name] := by
  induction values generalizing tokens with
  | nil =>
    refine (flatMap_singleton' tokens).symm.trans (flatMap_congr fun token _ => ?_)
    cases token <;> rfl
  | cons value values ih =>
    obtain ⟨name, value⟩ := value
    show fillAll values (fill name value tokens) = _
    rw [ih, fill, flatMap_assoc]
    refine flatMap_congr fun token _ => ?_
    cases token with
    | fixed c => exact append_nil _
    | slot other =>
      by_cases same : other = name
      · subst same
        simp only [lookup_cons, beq_self_eq_true, Option.map_some, Option.getD_some]
        induction value with
        | nil => rfl
        | cons c value ih => exact congrArg (.fixed c :: ·) ih
      · have other' : (other == name) = false := by simpa using same
        rw [if_neg fun slot => same (Token.slot.inj slot), flatMap_singleton]
        simp [lookup_cons, other']

theorem fillAll_covered (covered : ∀ name, .slot name ∈ tokens → (values.lookup name).isSome = true) :
    fillAll values tokens = (filled (fun name => (values.lookup name).getD []) tokens).map .fixed := by
  rw [fillAll_tokens, filled, map_flatMap]
  refine flatMap_congr fun token mem => ?_
  cases token with
  | fixed c => rfl
  | slot name =>
    obtain ⟨value, found⟩ := Option.isSome_iff_exists.mp (covered name mem)
    simp [found]

/-- A slot of another name stays where it is. -/
theorem replace_keeps (isName : IsName name) (isOther : IsName other) (different : name ≠ other) (value : Text)
    (inside : slotText other <:+: t) : slotText other <:+: replaceText (slotText name) value t := by
  obtain ⟨front, back, rfl⟩ := inside
  induction length : front.length using Nat.strong_induction_on generalizing front with
  | _ size ih =>
    cases front with
    | nil =>
      rw [nil_append, slotText_pass isName isOther different]
      exact ⟨[], _, rfl⟩
    | cons c front =>
      by_cases here : slotText name <+: c :: front ++ slotText other ++ back
      · obtain ⟨rest, same⟩ := here
        rw [← same, slotText_match]
        rw [append_assoc, append_eq_append_iff] at same
        -- a match that begins in front of the slot ends in front of it, because a name holds no brace
        have before : ∃ gap, c :: front = slotText name ++ gap ∧ rest = gap ++ (slotText other ++ back) := by
          rcases same with ⟨gap, whole, behind⟩ | ⟨gap, whole, behind⟩
          · exact ⟨gap, whole, behind⟩
          cases gap with
          | nil => exact ⟨[], by simpa using whole.symm, behind.symm⟩
          | cons d gap =>
            have brace : d = '\x7b' := (List.cons.inj behind).1.symm
            have tail : name ++ ['\x7d'] = front ++ d :: gap := (List.cons.inj whole).2
            have mem : '\x7b' ∈ name ++ ['\x7d'] := by simp [tail, brace]
            rcases mem_append.mp mem with held | held
            · exact absurd held isName.1
            · exact absurd (mem_singleton.mp held) (by decide)
        obtain ⟨gap, whole, rfl⟩ := before
        have shorter : gap.length < size := by
          have lengths := congrArg List.length whole
          simp only [length_append, slotText, length_cons] at lengths length
          omega
        have later := ih gap.length shorter gap rfl
        rw [← append_assoc]
        exact later.trans (suffix_append _ _).isInfix
      · have shorter : front.length < size := by
          rw [← length]
          exact Nat.lt_succ_self _
        have later := ih front.length shorter front rfl
        have passed : replaceText (slotText name) value (c :: front ++ slotText other ++ back) =
            c :: replaceText (slotText name) value (front ++ slotText other ++ back) := replaceText_pass here value
        rw [passed]
        exact later.trans (suffix_cons _ _).isInfix

theorem replaceAll_keeps (isNames : ∀ value ∈ values, IsName value.1) (isOther : IsName other)
    (absent : ∀ value ∈ values, value.1 ≠ other) (inside : slotText other <:+: t) :
    slotText other <:+: values.foldl (fun t value => replaceText (slotText value.1) value.2 t) t := by
  induction values generalizing t with
  | nil => exact inside
  | cons value values ih =>
    have kept := replace_keeps (isNames value mem_cons_self) isOther (absent value mem_cons_self) value.2 inside
    exact ih (fun later mem => isNames later (mem_cons_of_mem _ mem))
      (fun later mem => absent later (mem_cons_of_mem _ mem)) kept

theorem slot_inside (slot : name ∈ slots t) : slotText name <:+: t := by
  obtain ⟨token, mem, named⟩ := mem_filterMap.mp slot
  cases token with
  | fixed c => cases named
  | slot other =>
    cases named
    obtain ⟨before, behind, whole⟩ := append_of_mem mem
    have text : render (scan none t) = t := render_scan none t
    rw [whole, render_append, render_cons] at text
    exact ⟨render before, render behind, by rw [← text, append_assoc]; rfl⟩

theorem hasPair_slot (inside : slotText name <:+: t) : hasPair t = true := by
  have pair : ['\x7b', '\x7d'] <+ slotText name := (singleton_sublist.mpr (mem_append_right _ (mem_singleton.mpr rfl))).cons_cons _
  exact hasPair_iff.mpr (pair.trans inside.sublist)

theorem filled_congr {value value' : Text → Text} (same : ∀ name, .slot name ∈ tokens → value name = value' name) :
    filled value tokens = filled value' tokens := by
  refine flatMap_congr fun token mem => ?_
  cases token with
  | fixed c => rfl
  | slot name => exact same name mem

/-- With a value for each slot, one replacement after another gives the text filled. -/
theorem replaceAll_filled (isNames : ∀ value ∈ values, IsName value.1) {value : Text → Text}
    (covered : ∀ name ∈ slots t, values.lookup name = some (value name)) (clear : hasPair (filled value (scan none t)) = false) :
    values.foldl (fun t value => replaceText (slotText value.1) value.2 t) t = filled value (scan none t) := by
  have every : ∀ name, .slot name ∈ scan none t → values.lookup name = some (value name) :=
    fun name mem => covered name (mem_filterMap.mpr ⟨_, mem, rfl⟩)
  have tokens : fillAll values (scan none t) = (filled value (scan none t)).map .fixed := by
    rw [fillAll_covered fun name mem => by rw [every name mem]; rfl]
    exact congrArg (List.map _) (filled_congr fun name mem => by rw [every name mem]; rfl)
  have names : ∀ name, .slot name ∈ scan none t → IsName name := fun name mem => slots_names (mem_filterMap.mpr ⟨_, mem, rfl⟩)
  have unpaired : ¬ ['\x7b', '\x7d'] <+ fixedText (fillAll values (scan none t)) := by
    rw [tokens, fixedText_fixed, ← hasPair_iff, clear]
    exact Bool.false_ne_true
  have replaced := replace_fillAll isNames names unpaired
  rw [tokens, render_fixed, render_scan] at replaced
  exact replaced

end Ramag.Slots
