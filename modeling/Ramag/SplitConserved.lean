import Ramag.SplitMisread
import Ramag.StatementCuts

/-!
The splitter loses nothing. A text is its segments with semicolons between them,
and the pieces are the trimmed segments that are not blank. A segment is scanned by
itself as it was scanned inside the text, so a piece is split into itself.
-/
namespace Ramag.SplitConserved
open Strings Domain Sql SplitRules SplitMisread StatementCuts List

variable {opts : SplitOptions}

theorem quotedSkip_front (quote : Char) (b : Text) : ∀ a, quotedSkip quote a = min (quotedSkip quote (a ++ b)) a.length
  | [] => by simp [quotedSkip]
  | [c] => by
    have positive : 1 ≤ quotedSkip quote (c :: b) := by cases b <;> simp only [quotedSkip] <;> (try split_ifs) <;> omega
    simp only [quotedSkip, singleton_append, length_singleton]
    omega
  | c :: d :: t => by
    have escaped := quotedSkip_front quote b t
    have plain := quotedSkip_front quote b (d :: t)
    simp only [quotedSkip, cons_append, length_cons] at *
    split_ifs <;> omega

theorem blockSkip_pair (c d : Char) (t : Text) : blockSkip (c :: d :: t) = if c = '*' ∧ d = '/' then 2 else 1 + blockSkip (d :: t) := by
  split_ifs with closes
  · rw [closes.1, closes.2, blockSkip]
  · rw [blockSkip]
    intro _ star slash
    exact closes ⟨star, (List.cons.inj slash).1⟩

theorem blockSkip_front (b : Text) : ∀ a, blockSkip a = min (blockSkip (a ++ b)) a.length
  | [] => by simp [blockSkip]
  | [c] => by
    cases b with
    | nil => simp [blockSkip]
    | cons d b =>
      rw [List.singleton_append, blockSkip_pair]
      simp only [blockSkip, List.length_singleton]
      split_ifs <;> omega
  | c :: d :: t => by
    have later := blockSkip_front b (d :: t)
    simp only [cons_append, blockSkip_pair, length_cons] at *
    split_ifs <;> omega

theorem takeWhile_front (p : Char → Bool) (a b : Text) : (a.takeWhile p).length = min ((a ++ b).takeWhile p).length a.length := by
  induction a with
  | nil => simp
  | cons c a ih => by_cases holds : p c = true <;> simp_all

theorem findText_front {needle a : Text} (b : Text) {n : Nat} :
    findText needle a = some n ↔ findText needle (a ++ b) = some n ∧ n + needle.length ≤ a.length := by
  induction a generalizing n with
  | nil =>
    cases needle with
    | nil => cases b <;> simp [findText, eq_comm]
    | cons d needle => simp [findText]
  | cons c a ih =>
    have front : needle.isPrefixOf (c :: a) = true ↔ needle.isPrefixOf (c :: (a ++ b)) = true ∧ needle.length ≤ (c :: a).length := by
      rw [ isPrefixOf_iff_prefix, isPrefixOf_iff_prefix]
      exact ⟨fun front => ⟨front.trans (prefix_append ..), front.length_le⟩,
        fun both => prefix_of_prefix_length_le both.1 (prefix_append ..) both.2⟩
    rw [cons_append, findText, findText]
    by_cases here : needle.isPrefixOf (c :: (a ++ b)) = true
    · by_cases fits : needle.length ≤ (c :: a).length
      · rw [if_pos (front.mpr ⟨here, fits⟩), if_pos here]
        refine ⟨fun same => ?_, And.left⟩
        cases same
        exact ⟨rfl, by simpa using fits⟩
      rw [if_neg fun prefixed => fits (front.mp prefixed).2, if_pos here]
      simp only [Option.map_eq_some_iff, ih, length_cons] at *
      constructor
      · omega
      · omega
    · rw [if_neg fun prefixed => here (front.mp prefixed).1, if_neg here]
      simp only [Option.map_eq_some_iff, ih, length_cons]
      constructor
      · rintro ⟨m, ⟨found, short⟩, rfl⟩
        exact ⟨⟨m, found, rfl⟩, by omega⟩
      · rintro ⟨⟨m, found, rfl⟩, short⟩
        exact ⟨m, ⟨found, by omega⟩, rfl⟩

theorem scanDollarQuoted_eq_some {c : Char} {t : Text} {n : Nat} : scanDollarQuoted (c :: t) = some n ↔
    ∃ name body offset, t = name ++ '$' :: body ∧ (∀ d ∈ name, isWordByte d = true) ∧ findText (c :: name ++ ['$']) body = some offset ∧
      (c :: name ++ ['$']).length + offset + (c :: name ++ ['$']).length = n := by
  rw [scanDollarQuoted]
  rw [Lexing.drop_run]
  constructor
  · intro found
    split at found
    · rename_i body tail
      obtain ⟨offset, place, size⟩ := Option.map_eq_some_iff.mp found
      refine ⟨t.takeWhile isWordByte, body, offset, ?_, fun d => mem_takeWhile_imp, place, size⟩
      rw [← tail, takeWhile_append_dropWhile]
    · cases found
  · rintro ⟨name, body, offset, rfl, word, place, size⟩
    have dollar : isWordByte '$' = false := by decide
    rw [takeWhile_append_of_pos word, dropWhile_append_of_pos word]
    rw [cons_append] at place size
    simp [dollar, place, ← size]

theorem scanDollarQuoted_front {c : Char} {a : Text} (b : Text) {n : Nat} :
    scanDollarQuoted (c :: a) = some n ↔ scanDollarQuoted (c :: (a ++ b)) = some n ∧ n ≤ (c :: a).length := by
  rw [scanDollarQuoted_eq_some, scanDollarQuoted_eq_some]
  constructor
  · rintro ⟨name, body, offset, rfl, word, place, size⟩
    obtain ⟨later, short⟩ := (findText_front b).mp place
    refine ⟨⟨name, body ++ b, offset, by simp, word, later, size⟩, ?_⟩
    simp only [length_append, length_cons, length_nil] at *
    omega
  · rintro ⟨⟨name, body, offset, split, word, place, size⟩, short⟩
    obtain ⟨body, rfl⟩ : ∃ body', a = name ++ '$' :: body' := by
      have front : name ++ ['$'] <+: a := by
        refine prefix_of_prefix_length_le (⟨body, by simp [split]⟩ : name ++ ['$'] <+: a ++ b) (prefix_append ..) ?_
        simp only [length_append, length_cons, length_nil] at *
        omega
      obtain ⟨body', rfl⟩ := front
      exact ⟨body', by simp⟩
    simp only [append_assoc, cons_append, append_cancel_left_eq, List.cons.injEq, true_and] at split
    subst split
    refine ⟨name, body, offset, rfl, word, (findText_front b).mpr ⟨place, ?_⟩, size⟩
    simp only [length_append, length_cons, length_nil] at *
    omega

theorem splitJump_pair (c d : Char) (t : Text) : splitJump opts (c :: d :: t) =
    if isQuote c then 1 + quotedSkip c (d :: t) else if c = '$' ∧ opts.dollarQuoted then (scanDollarQuoted (c :: d :: t)).getD 1
    else if c = '-' ∧ d = '-' then lineSkip (c :: d :: t) else if c = '/' ∧ d = '*' then 2 + blockSkip t
    else if startsWord opts c then 1 + ((d :: t).takeWhile isWordByte).length else 1 := by
  simp [splitJump, startsWord]

/-- A jump in the front of a text is the same without what follows, unless it is a dollar quote that
    ends there. -/
theorem splitJump_front {c : Char} {a : Text} (b : Text)
    (whole : c = '$' → opts.dollarQuoted = true → ∀ n, scanDollarQuoted (c :: (a ++ b)) = some n → n ≤ (c :: a).length) :
    splitJump opts (c :: a) = min (splitJump opts (c :: (a ++ b))) (c :: a).length := by
  have quoted := quotedSkip_front c b a
  have line := takeWhile_front (· ≠ '\n') (c :: a) b
  have word := takeWhile_front isWordByte a b
  by_cases quote : isQuote c = true
  · simp only [splitJump, if_pos quote, length_cons]
    omega
  by_cases dollar : c = '$' ∧ opts.dollarQuoted = true
  · have jump (t : Text) : splitJump opts (c :: t) = (scanDollarQuoted (c :: t)).getD 1 := by
      rw [splitJump, if_neg quote, if_pos (by simp [dollar])]
    rw [jump, jump]
    cases found : scanDollarQuoted (c :: (a ++ b)) with
    | none =>
      have none : scanDollarQuoted (c :: a) = none := Option.eq_none_iff_forall_ne_some.mpr fun n here => by
        rw [((scanDollarQuoted_front b).mp here).1] at found
        cases found
      simp [none]
    | some n =>
      have short := whole dollar.1 dollar.2 n found
      rw [(scanDollarQuoted_front b).mpr ⟨found, short⟩, Option.getD_some, Nat.min_eq_left short]
  cases a with
  | nil =>
    have single : splitJump opts [c] = 1 := by simp [splitJump, quote, scanDollarQuoted]
    have positive : 1 ≤ splitJump opts (c :: b) := by
      cases b with
      | nil => exact single.ge
      | cons d b =>
        rw [splitJump_pair, if_neg quote, if_neg dollar]
        split_ifs with minus
        · simp [lineSkip, minus.1]
        all_goals omega
    rw [single, nil_append, length_singleton, Nat.min_eq_right positive]
  | cons d a =>
    have block := blockSkip_front b a
    rw [cons_append, splitJump_pair, splitJump_pair, if_neg quote, if_neg quote, if_neg dollar, if_neg dollar]
    simp only [cons_append, length_cons, lineSkip] at *
    split_ifs <;> omega

/-! ### Segments without a cut -/

/-- The trigger tracking behind a look at the first character. -/
def tracked (opts : SplitOptions) (state : SplitState) (c : Char) (t : Text) : SplitState :=
  if startsWord opts c then state.word ((c :: t).take (splitJump opts (c :: t))) ((c :: t).drop (splitJump opts (c :: t))) else state

/-- The splitter comes to the end of the text without ending a statement. -/
def Uncut (opts : SplitOptions) : Nat → SplitState → Text → Prop
  | _, _, [] => True
  | skip + 1, state, _ :: t => Uncut opts skip state t
  | 0, state, c :: t =>
    if c = ';' then (opts.mysqlCompoundBlocks && state.trigger && 0 < state.blockDepth) = true ∧ Uncut opts 0 state t
    else Uncut opts (splitJump opts (c :: t) - 1) (tracked opts state c t) t

variable {state : SplitState} {skip : Nat} {c : Char} {a b t : Text}

theorem push_onto (out : List Text) (segment : Text) : (onto state out segment).push c = onto state out (segment ++ [c]) := rfl

theorem emit_flags (out : List Text) (segment : Text) (limit : Option Nat) :
    (onto state out segment).emit limit = SplitState.emit { out, segment } limit := rfl

theorem splitFrom_tracked (other : c ≠ ';') (limit : Option Nat) (out : List Text) (segment : Text) :
    splitFrom opts limit 0 (onto state out segment) (c :: t) =
      splitFrom opts limit (splitJump opts (c :: t) - 1) (onto (tracked opts state c t) out (segment ++ [c])) t := by
  rw [splitFrom, if_neg other, tracked]
  simp only [word_onto]
  split_ifs <;> rw [push_onto]

theorem splitFrom_inside (inside : (opts.mysqlCompoundBlocks && state.trigger && 0 < state.blockDepth) = true) (limit : Option Nat)
    (out : List Text) (segment : Text) : splitFrom opts limit 0 (onto state out segment) (';' :: t) =
      splitFrom opts limit 0 (onto state out (segment ++ [';'])) t := by
  rw [splitFrom, if_pos rfl, if_pos (by exact inside), push_onto]

theorem Uncut.emits (uncut : Uncut opts skip state t) (limit : Option Nat) (out : List Text) (segment : Text) :
    splitFrom opts limit skip (onto state out segment) t = (SplitState.emit { out, segment := segment ++ t } limit).map SplitState.out := by
  induction t generalizing skip state segment with
  | nil => cases skip <;> rw [splitFrom, emit_flags, append_nil]
  | cons c t ih =>
    rw [append_cons]
    cases skip with
    | succ skip => rw [splitFrom, push_onto, ih uncut]
    | zero =>
      rw [Uncut] at uncut
      split_ifs at uncut with semicolon
      · rw [semicolon, splitFrom_inside uncut.1, ih uncut.2]
      · rw [splitFrom_tracked semicolon, ih uncut]

/-- What follows a segment does not go on with a word. -/
def Calm (b : Text) : Prop := b.takeWhile isWordByte = [] ∧ (b.dropWhile isAsciiWhitespace).takeWhile isWordByte = []

theorem takeWhile_calm {p : Char → Bool} (ends : b.takeWhile p = []) (a : Text) : (a ++ b).takeWhile p = a.takeWhile p := by
  rw [takeWhile_append]
  split_ifs with whole
  · rw [ends, append_nil, ( takeWhile_prefix p).eq_of_length whole]
  · rfl

theorem word_calm (calm : Calm b) (state : SplitState) (word t : Text) : state.word word (t ++ b) = state.word word t := by
  have same : mysqlEndClosesNestedBlock (t ++ b) = mysqlEndClosesNestedBlock t := by
    simp only [mysqlEndClosesNestedBlock, dropWhile_append]
    split_ifs with white
    · rw [calm.2, isEmpty_iff.mp white, takeWhile_nil]
    · rw [takeWhile_calm calm.1]
  simp only [SplitState.word, same]

theorem tracked_calm (calm : Calm b) (state : SplitState) (c : Char) (a : Text) :
    tracked opts state c (a ++ b) = tracked opts state c a := by
  rw [tracked, tracked]
  split_ifs with start
  · have short : (a.takeWhile isWordByte).length ≤ a.length := ( takeWhile_prefix _).length_le
    rw [splitJump_word start, splitJump_word start, takeWhile_calm calm.1, Nat.add_comm, take_succ_cons, take_succ_cons,
      drop_succ_cons, drop_succ_cons, take_append_of_le_length short, drop_append_of_le_length short,
      word_calm calm]
  · rfl

theorem Uncut.min : Uncut opts (min skip t.length) state t ↔ Uncut opts skip state t := by
  induction t generalizing skip state with
  | nil => cases skip <;> simp [Uncut]
  | cons c t ih =>
    cases skip with
    | zero => simp
    | succ skip => rw [length_cons, Nat.succ_min_succ, Uncut, Uncut, ih]

theorem uncut_step (other : c ≠ ';') (calm : Calm b)
    (whole : c = '$' → opts.dollarQuoted = true → ∀ n, scanDollarQuoted (c :: (a ++ b)) = some n → n ≤ (c :: a).length)
    (later : Uncut opts (splitJump opts (c :: (a ++ b)) - 1) (tracked opts state c (a ++ b)) a) : Uncut opts 0 state (c :: a) := by
  have least : min (min (splitJump opts (c :: (a ++ b))) (c :: a).length - 1) a.length =
      min (splitJump opts (c :: (a ++ b)) - 1) a.length := by
    rw [length_cons]
    omega
  rw [Uncut, if_neg other, ← Uncut.min, splitJump_front b whole, ← tracked_calm calm, least, Uncut.min]
  exact later

theorem calm_white (white : ∀ c ∈ b, isWhitespace c = true) : Calm b := by
  have dark {b : Text} (white : ∀ c ∈ b, isWhitespace c = true) : b.takeWhile isWordByte = [] := by
    cases b with
    | nil => rfl
    | cons c b => simp [white_notWord (white c mem_cons_self)]
  exact ⟨dark white, dark fun c mem => white c ((dropWhile_suffix _).subset mem)⟩

/-- White space at the end of a segment opens nothing. -/
theorem Uncut.front (uncut : Uncut opts skip state (a ++ b)) (white : ∀ c ∈ b, isWhitespace c = true) : Uncut opts skip state a := by
  induction a generalizing skip state with
  | nil => cases skip <;> trivial
  | cons c a ih =>
    cases skip with
    | succ skip => exact ih uncut
    | zero =>
      rw [cons_append, Uncut] at uncut
      split_ifs at uncut with semicolon
      · rw [Uncut, if_pos semicolon]
        exact ⟨uncut.1, ih uncut.2⟩
      cases b with
      | nil =>
        rw [Uncut, if_neg semicolon]
        simpa using uncut
      | cons d b =>
        refine uncut_step semicolon (calm_white white) (fun _ _ n found => ?_) (ih uncut)
        by_contra long
        -- the last dollar sign of the quote would be white space
        have closes := scanDollarQuoted_closes found
        obtain ⟨m, rfl⟩ : ∃ m, n = (c :: a).length + (m + 1) := ⟨n - (c :: a).length - 1, by omega⟩
        rw [← cons_append, take_length_add_append, take_succ_cons] at closes
        have mem : '$' ∈ d :: b.take m := by
          rw [getLast?_append_of_ne_nil _ (by simp)] at closes
          exact mem_of_getLast? closes
        have space : isWhitespace '$' = true := white '$' (by
          rcases mem_cons.mp mem with rfl | later
          · exact mem_cons_self
          · exact mem_cons_of_mem d (mem_of_mem_take later))
        cases space

theorem Uncut.behind (uncut : Uncut opts 0 state (a ++ b)) (white : ∀ c ∈ a, isWhitespace c = true) : Uncut opts 0 state b := by
  induction a with
  | nil => exact uncut
  | cons c a ih =>
    have notWord : startsWord opts c = false := white_startsWord (white c mem_cons_self)
    have plain := white_plain (white c mem_cons_self)
    simp only [isPlain, Bool.and_eq_true, Bool.not_eq_true', decide_eq_true_eq] at plain
    obtain ⟨⟨⟨⟨quote, dollar⟩, dash⟩, slash⟩, semicolon⟩ := plain
    have jump : splitJump opts (c :: (a ++ b)) = 1 := by
      rw [startsWord] at notWord
      simp [splitJump, quote, dollar, dash, slash, notWord]
    rw [cons_append, Uncut, if_neg semicolon, jump, tracked, notWord] at uncut
    exact ih uncut fun d mem => white d (mem_cons_of_mem c mem)

/-- The splitter is not cut, or it ends a statement at the first semicolon that cuts. -/
theorem first_cut (opts : SplitOptions) (skip : Nat) (state : SplitState) (t : Text) : Uncut opts skip state t ∨
    ∃ a rest, t = a ++ ';' :: rest ∧ skip ≤ a.length ∧ Uncut opts skip state a ∧ ∀ limit out segment,
      splitFrom opts limit skip (onto state out segment) t =
        (SplitState.emit { out, segment := segment ++ a } limit).bind fun next => splitFrom opts limit 0 next rest := by
  induction t generalizing skip state with
  | nil => exact .inl (by cases skip <;> trivial)
  | cons c t ih =>
    cases skip with
    | succ skip =>
      rcases ih skip state with uncut | ⟨a, rest, rfl, short, uncut, splits⟩
      · exact .inl uncut
      · refine .inr ⟨c :: a, rest, rfl, by simpa using short, uncut, fun limit out segment => ?_⟩
        rw [splitFrom, push_onto, splits, ← append_cons]
    | zero =>
      by_cases semicolon : c = ';'
      · subst semicolon
        by_cases inside : (opts.mysqlCompoundBlocks && state.trigger && 0 < state.blockDepth) = true
        · rcases ih 0 state with uncut | ⟨a, rest, rfl, short, uncut, splits⟩
          · exact .inl ⟨inside, uncut⟩
          · refine .inr ⟨';' :: a, rest, rfl, Nat.zero_le _, ⟨inside, uncut⟩, fun limit out segment => ?_⟩
            rw [splitFrom_inside inside, splits, ← append_cons]
        · refine .inr ⟨[], t, rfl, Nat.le_refl _, trivial, fun limit out segment => ?_⟩
          rw [splitFrom, if_pos rfl, if_neg (by exact inside), emit_flags, append_nil]
          cases SplitState.emit { out, segment } limit <;> rfl
      · rcases ih (splitJump opts (c :: t) - 1) (tracked opts state c t) with uncut | ⟨a, rest, rfl, short, uncut, splits⟩
        · exact .inl (by rw [Uncut, if_neg semicolon]; exact uncut)
        have calm : Calm (';' :: rest) := ⟨rfl, rfl⟩
        refine .inr ⟨c :: a, rest, rfl, Nat.zero_le _, uncut_step semicolon calm (fun dollar quoted n found => ?_) uncut,
          fun limit out segment => ?_⟩
        · have jump : splitJump opts (c :: (a ++ ';' :: rest)) = n := by
            rw [splitJump, dollar, if_neg (by decide), if_pos (by simp [quoted]), ← dollar, found, Option.getD_some]
          simp only [length_cons]
          omega
        · rw [splitFrom_tracked semicolon, splits, ← append_cons]

/-- The trimmed segments that are not blank. -/
def pieces (segments : List Text) : List Text := (segments.map trim).filter fun piece => !piece.isEmpty

theorem pieces_cons (s : Text) (segments : List Text) : pieces (s :: segments) = pieces [s] ++ pieces segments := by
  simp only [pieces, map_cons, map_nil, filter_cons, filter_nil]
  split_ifs <;> rfl

theorem emit_pieces {limit : Option Nat} {out : List Text} (room : ∀ n ∈ limit, out.length ≤ n) (s : Text) :
    SplitState.emit { out, segment := s } limit =
      if limit.any (· < out.length + (pieces [s]).length) then none else some { out := out ++ pieces [s] } := by
  simp only [SplitState.emit, pieces, map_cons, map_nil, filter_cons, filter_nil]
  cases limit with
  | none => cases empty : (trim s).isEmpty <;> simp
  | some n =>
    have small := room n rfl
    cases empty : (trim s).isEmpty
    · simp only [Bool.false_eq_true, if_false, Bool.not_false, if_true, Option.any_some, length_singleton, decide_eq_true_eq]
      split_ifs <;> first | rfl | omega
    · simp [small]

theorem splitFrom_pieces (opts : SplitOptions) (t : Text) : ∃ segments, segments ≠ [] ∧ t = [';'].intercalate segments ∧
    (∀ s ∈ segments, Uncut opts 0 {} s) ∧ ∀ limit out, (∀ n ∈ limit, out.length ≤ n) → splitFrom opts limit 0 { out } t =
        if limit.any (· < out.length + (pieces segments).length) then none else some (out ++ pieces segments) := by
  induction size : t.length using Nat.strong_induction_on generalizing t with
  | _ n ih =>
    rcases first_cut opts 0 {} t with uncut | ⟨a, rest, rfl, -, uncut, splits⟩
    · refine ⟨[t], by simp, by simp, by simpa using uncut, fun limit out room => ?_⟩
      have emitted := uncut.emits limit out []
      rw [nil_append, emit_pieces room] at emitted
      refine emitted.trans ?_
      split_ifs <;> rfl
    · obtain ⟨segments, held, whole, uncuts, later⟩ := ih rest.length (by simp at size; omega) rest rfl
      refine ⟨a :: segments, by simp, ?_, by simpa using ⟨uncut, uncuts⟩, fun limit out room => ?_⟩
      · rw [intercalate_cons_of_ne_nil held, ← whole]
        simp
      refine (splits limit out []).trans ?_
      rw [nil_append, emit_pieces room, pieces_cons a segments, length_append, ← append_assoc]
      by_cases full : limit.any (· < out.length + (pieces [a]).length) = true
      · have more : limit.any (· < out.length + ((pieces [a]).length + (pieces segments).length)) = true := by
          cases limit with
          | none => cases full
          | some n =>
            simp only [Option.any_some, decide_eq_true_eq] at full ⊢
            omega
        rw [if_pos full, if_pos more]
        rfl
      · rw [if_neg full, ← Nat.add_assoc, ← length_append]
        refine later limit _ fun n mem => ?_
        cases mem
        simpa using full

theorem trim_parts (t : Text) : ∃ v w, t = v ++ (trim t ++ w) ∧ (∀ c ∈ v, isWhitespace c = true) ∧ ∀ c ∈ w, isWhitespace c = true := by
  obtain ⟨w, whole, white⟩ := trimEnd_parts (trimStart t)
  refine ⟨t.takeWhile isWhitespace, w, ?_, fun c => mem_takeWhile_imp, white⟩
  rw [trim, ← whole, trimStart, takeWhile_append_dropWhile]

theorem trim_trim (t : Text) : trim (trim t) = trim t := by
  have start : trimStart (trim t) = trim t := by
    obtain ⟨w, whole, -⟩ := trimEnd_parts (trimStart t)
    cases first : trim t with
    | nil => rfl
    | cons c u =>
      have dark := head?_dropWhile_not isWhitespace t
      rw [← trimStart, whole, ← trim, first] at dark
      exact dropWhile_cons_of_neg (by simpa using dark)
  rw [trim, start]
  exact rdropWhile_idempotent ..

theorem splitter_conserves (sql : Text) (opts : SplitOptions) : ∃ segments, sql = [';'].intercalate segments ∧
    splitStatements sql opts = pieces segments ∧ (∀ piece ∈ splitStatements sql opts, splitStatements piece opts = [piece]) ∧
    ∀ maxStatements, splitStatementsBounded sql opts maxStatements =
      if (splitStatements sql opts).length ≤ maxStatements then .ok (splitStatements sql opts)
      else .error (.InvalidConfig ("SQL 语句数量超过 " ++ natText maxStatements ++ " 条安全上限，请拆分脚本后执行")) := by
  obtain ⟨segments, -, whole, uncuts, split⟩ := splitFrom_pieces opts sql
  have all : splitStatements sql opts = pieces segments := by
    rw [splitStatements, splitStatementsWithLimit, split none [] (by simp)]
    rfl
  refine ⟨segments, whole, all, fun piece mem => ?_, fun maxStatements => ?_⟩
  · rw [all, pieces, mem_filter, mem_map] at mem
    obtain ⟨⟨s, held, rfl⟩, nonempty⟩ := mem
    obtain ⟨v, w, parts, front, back⟩ := trim_parts s
    have uncut := uncuts s held
    rw [parts] at uncut
    have emitted := ((uncut.behind front).front back).emits none [] []
    refine (congrArg (Option.getD · []) emitted).trans ?_
    rw [nil_append, emit_pieces (by simp), pieces, map_singleton, trim_trim]
    simp [nonempty]
  · rw [all, splitStatementsBounded, splitStatementsWithLimit, split (some maxStatements) [] (by simp)]
    simp only [Option.any_some, length_nil, Nat.zero_add, nil_append, decide_eq_true_eq]
    by_cases fits : (pieces segments).length ≤ maxStatements
    · rw [if_neg (Nat.not_lt.mpr fits), if_pos fits]
    · rw [if_pos (Nat.lt_of_not_le fits), if_neg fits]

end Ramag.SplitConserved
