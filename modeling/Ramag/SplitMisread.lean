import Ramag.SplitRules

/-!
How the splitter loses a statement. Where the splitter stands outside, behind a
literal, it has stood outside in front of that literal and has passed it as a
quoted text: so a literal that hides its own end is never left behind, whatever
the statement goes on with.
-/
namespace Ramag.SplitMisread
open Strings Domain Sql SplitRules List

variable {opts : SplitOptions}

/-- The characters that are passed over behind the one that the splitter looks at. -/
def behind (opts : SplitOptions) (c : Char) (t : Text) : Nat := if c = ';' then 0 else splitJump opts (c :: t) - 1

/-- The splitter, with `skip` characters still to pass over, stands between two
    jumps after the given number of characters. -/
def aligned (opts : SplitOptions) : Nat → Text → Nat → Bool
  | 0, _, 0 => true
  | _ + 1, _, 0 => false
  | _, [], _ + 1 => false
  | skip + 1, _ :: t, k + 1 => aligned opts skip t k
  | 0, c :: t, k + 1 => aligned opts (behind opts c t) t k

variable {n : Nat} {t : Text}

theorem aligned_far {k : Nat} (far : k < n) : aligned opts n t k = false := by
  induction t generalizing n k with
  | nil =>
    obtain ⟨m, rfl⟩ : ∃ m, n = m + 1 := ⟨n - 1, by omega⟩
    cases k <;> rfl
  | cons c t ih =>
    obtain ⟨m, rfl⟩ : ∃ m, n = m + 1 := ⟨n - 1, by omega⟩
    cases k with
    | zero => rfl
    | succ k => exact ih (by omega)

variable {skip : Nat}

theorem aligned_last {k : Nat} (stands : aligned opts skip t k = true) (moved : skip < k) :
    ∃ front c rest, t = front ++ c :: rest ∧ aligned opts skip t front.length = true ∧ front.length + 1 + behind opts c rest = k := by
  induction t generalizing skip k with
  | nil =>
    obtain ⟨m, rfl⟩ : ∃ m, k = m + 1 := ⟨k - 1, by omega⟩
    cases skip <;> cases stands
  | cons c t ih =>
    obtain ⟨m, rfl⟩ : ∃ m, k = m + 1 := ⟨k - 1, by omega⟩
    cases skip with
    | succ skip =>
      obtain ⟨front, d, rest, split, before, jump⟩ := ih stands (by omega)
      exact ⟨c :: front, d, rest, by rw [split]; rfl, before, by rw [← jump, length_cons]; omega⟩
    | zero =>
      rw [aligned] at stands
      rcases lt_trichotomy (behind opts c t) m with less | same | more
      · obtain ⟨front, d, rest, split, before, jump⟩ := ih stands less
        exact ⟨c :: front, d, rest, by rw [split]; rfl, before, by rw [← jump, length_cons]; omega⟩
      · exact ⟨[], c, t, rfl, rfl, by rw [← same, length_nil]; omega⟩
      · simp [aligned_far more] at stands

private theorem quotedSkip_closes {quote : Char} : ∀ {t : Text}, quotedSkip quote t < t.length →
    (t.take (quotedSkip quote t)).getLast? = some quote
  | [], short => by cases short
  | [_], short => by simp [quotedSkip] at short
  | c :: d :: t, short => by
    by_cases escape : c = '\\'
    · subst escape
      rw [quotedSkip_escape] at short ⊢
      have inner := @quotedSkip_closes quote t (by simp only [length_cons] at short; omega)
      rw [Nat.add_comm, take_succ_cons, take_succ_cons, getLast?_cons, getLast?_cons, inner]
      rfl
    · by_cases closing : c = quote
      · rw [closing, quotedSkip_close (by rintro rfl; exact escape closing)]
        rfl
      rw [quotedSkip_cons escape closing] at short ⊢
      have inner := @quotedSkip_closes quote (d :: t) (by simp only [length_cons] at short ⊢; omega)
      rw [Nat.add_comm, take_succ_cons, getLast?_cons, inner]
      rfl

private theorem blockSkip_closes (short : blockSkip t < t.length) : (t.take (blockSkip t)).getLast? = some '/' := by
  induction t using blockSkip.induct with
  | case1 t => simp [blockSkip]
  | case2 c t other ih =>
    have size : blockSkip (c :: t) = 1 + blockSkip t := by rw [blockSkip]; exact other
    rw [size] at short ⊢
    have inner := ih (by simp only [length_cons] at short; omega)
    rw [Nat.add_comm, take_succ_cons, getLast?_cons, inner]
    rfl
  | case3 => cases short

private theorem findText_found {needle : Text} (found : findText needle t = some n) : ∃ a b, t = a ++ needle ++ b ∧ a.length = n := by
  induction t generalizing n with
  | nil =>
    simp only [findText] at found
    split_ifs at found with empty
    rw [List.isEmpty_iff] at empty
    cases found
    exact ⟨[], [], by simp [empty], rfl⟩
  | cons c t ih =>
    simp only [findText] at found
    split_ifs at found with here
    · obtain ⟨b, split⟩ := isPrefixOf_iff_prefix.mp here
      cases found
      exact ⟨[], b, split.symm, rfl⟩
    · obtain ⟨m, later, rfl⟩ := Option.map_eq_some_iff.mp found
      obtain ⟨a, b, split, size⟩ := ih later
      exact ⟨c :: a, b, by rw [split]; rfl, by rw [length_cons, size]⟩

theorem scanDollarQuoted_closes (found : scanDollarQuoted t = some n) : (t.take n).getLast? = some '$' := by
  cases t with
  | nil => cases found
  | cons c t =>
    simp only [scanDollarQuoted] at found
    split at found
    · rename_i body tail
      obtain ⟨offset, place, rfl⟩ := Option.map_eq_some_iff.mp found
      obtain ⟨a, b, split, size⟩ := findText_found place
      rw [Lexing.drop_run] at tail
      generalize name : t.takeWhile isWordByte = run at *
      have opened : c :: t = (c :: run ++ ['$']) ++ (a ++ (c :: run ++ ['$'])) ++ b := by
        rw [append_assoc, ← split, append_assoc, singleton_append, ← tail, ← name, cons_append, takeWhile_append_dropWhile]
      have length : (c :: run ++ ['$']).length + offset + (c :: run ++ ['$']).length =
          ((c :: run ++ ['$']) ++ (a ++ (c :: run ++ ['$']))).length := by
        simp only [length_append, size]
        omega
      rw [opened, length, take_left, ← append_assoc, ← append_assoc, getLast?_concat]
    · cases found

variable {c next : Char}

private theorem jump_ends {u rest : Text} (size : behind opts c (u ++ next :: rest) = u.length) : (u = [] ∧ isQuote c = false) ∨
      (isQuote c = true ∧ quotedSkip c (u ++ next :: rest) = u.length ∧ u.getLast? = some c) ∨
      (c :: u).getLast? = some '$' ∨ (c :: u).getLast? = some '/' ∨ next = '\n' ∨ ∀ d ∈ c :: u, isWordByte d = true := by
  have single (length : 0 = u.length) (plain : isQuote c = false) : u = [] ∧ isQuote c = false := ⟨length_eq_zero_iff.mp length.symm, plain⟩
  by_cases semicolon : c = ';'
  · rw [behind, if_pos semicolon] at size
    exact .inl (single size (by rw [semicolon]; rfl))
  rw [behind, if_neg semicolon] at size
  have taken : (c :: (u ++ next :: rest)).take (u.length + 1) = c :: u := by simp
  by_cases quote : isQuote c = true
  · rw [splitJump, if_pos quote] at size
    have skip : quotedSkip c (u ++ next :: rest) = u.length := by omega
    have closes := @quotedSkip_closes c (u ++ next :: rest) (by rw [skip]; simp)
    rw [skip, take_left] at closes
    exact .inr (.inl ⟨quote, skip, closes⟩)
  have plain : isQuote c = false := by simpa using quote
  by_cases dollar : (c = '$' && opts.dollarQuoted) = true
  · rw [splitJump, if_neg quote, if_pos dollar] at size
    cases found : scanDollarQuoted (c :: (u ++ next :: rest)) with
    | none => exact .inl (single (by rw [found] at size; exact size) plain)
    | some n =>
      rw [found, Option.getD_some] at size
      have closes := scanDollarQuoted_closes found
      cases n with
      | zero => cases closes
      | succ n => exact .inr (.inr (.inl (by rw [← taken, ← size]; exact closes)))
  by_cases line : (decide (c = '-') && decide ((u ++ next :: rest).head? = some '-')) = true
  · rw [splitJump, if_neg quote, if_neg dollar, if_pos line] at size
    simp only [Bool.and_eq_true, decide_eq_true_eq] at line
    have run : ((u ++ next :: rest).takeWhile (· ≠ '\n')).length = u.length := by
      rw [← size, lineSkip, takeWhile_cons_of_pos (by rw [line.1]; decide), length_cons, Nat.add_sub_cancel]
    have stop := Lexing.run_stops (p := fun d => decide (d ≠ '\n')) (t := u ++ next :: rest) (c := next)
      (by rw [run, drop_left]; rfl)
    exact .inr (.inr (.inr (.inr (.inl (by simpa using stop)))))
  by_cases block : (decide (c = '/') && decide ((u ++ next :: rest).head? = some '*')) = true
  · rw [splitJump, if_neg quote, if_neg dollar, if_neg line, if_pos block] at size
    cases u with
    | nil => simp at size
    | cons star u =>
      simp only [cons_append, tail_cons, length_cons] at size
      have closes := blockSkip_closes (t := u ++ next :: rest) (by simp; omega)
      rw [show blockSkip (u ++ next :: rest) = u.length by omega, take_left] at closes
      refine .inr (.inr (.inr (.inl ?_)))
      rw [getLast?_cons, getLast?_cons, closes]
      rfl
  by_cases word : (opts.mysqlCompoundBlocks && c.isAlpha) = true
  · rw [splitJump, if_neg quote, if_neg dollar, if_neg line, if_neg block, if_pos word] at size
    have run : ((u ++ next :: rest).takeWhile isWordByte).length = u.length := by omega
    have same : (u ++ next :: rest).takeWhile isWordByte = u := by rw [prefix_iff_eq_take.mp ( takeWhile_prefix isWordByte), run, take_left]
    have letter : isWordByte c = true := by
      rw [Bool.and_eq_true] at word
      simp [isWordByte, Char.isAlphanum, word.2]
    refine .inr (.inr (.inr (.inr (.inr ?_))))
    rw [← same]
    exact Lexing.mem_run letter
  · rw [splitJump, if_neg quote, if_neg dollar, if_neg line, if_neg block, if_neg word] at size
    exact .inl (single size plain)

private theorem aligned_behind {rest : Text} (stands : aligned opts 0 (t ++ next :: rest) t.length = true)
    (nonempty : t ≠ []) : ∃ front c u, t = front ++ c :: u ∧
      aligned opts 0 (t ++ next :: rest) front.length = true ∧ behind opts c (u ++ next :: rest) = u.length := by
  obtain ⟨front, c, more, split, before, jump⟩ := aligned_last stands (length_pos_iff.mpr nonempty)
  have shorter : (front ++ [c]).length ≤ t.length := by simp; omega
  have start : front ++ [c] <+: t :=
    prefix_of_prefix_length_le ⟨more, by simpa using split.symm⟩ (prefix_append t _) shorter
  obtain ⟨u, rfl⟩ := start
  have tail : more = u ++ next :: rest := by simpa using split.symm
  refine ⟨front, c, u, by simp, before, ?_⟩
  rw [← tail]
  simp at jump
  omega

/-- Behind the first text the splitter stands outside, or in a word. -/
def Outside (opts : SplitOptions) (t rest : Text) : Prop :=
  ∃ front word, t = front ++ word ∧ (∀ d ∈ word, isWordByte d = true) ∧ aligned opts 0 (t ++ rest) front.length = true

/-- Whenever the splitter stands outside behind the text, it has stood outside
    in front of it, and the text is good. -/
structure Framed (opts : SplitOptions) (t : Text) (good : Prop) : Prop where
  back : ∀ {before next rest}, before.getLast? ≠ some '\\' → next ≠ '\n' → Outside opts (before ++ t) (next :: rest) →
    Outside opts before (t ++ next :: rest) ∧ good
  head : t.head? ≠ some '\n'
  last : t.getLast? ≠ some '\\'

theorem framed_nil : Framed opts [] True where
  back _ _ outside := ⟨by simpa using outside, trivial⟩
  head := by simp
  last := by simp

theorem Framed.append {u : Text} {good fine : Prop} (first : Framed opts t good) (second : Framed opts u fine) :
    Framed opts (t ++ u) (good ∧ fine) where
  back {before next rest} clear other outside := by
    rw [← append_assoc] at outside
    have clear_t : (before ++ t).getLast? ≠ some '\\' := by
      cases t using List.reverseRecOn with
      | nil => simpa using clear
      | append_singleton t c => simpa using first.last
    obtain ⟨between, fine⟩ := second.back clear_t other outside
    cases u with
    | nil =>
      obtain ⟨front, good⟩ := first.back clear other between
      exact ⟨by simpa using front, good, fine⟩
    | cons c u =>
      have head : c ≠ '\n' := by simpa using second.head
      obtain ⟨front, good⟩ := first.back clear head between
      exact ⟨by simpa using front, good, fine⟩
  head := by
    cases t with
    | nil => exact second.head
    | cons c t => exact first.head
  last := by
    cases u using List.reverseRecOn with
    | nil => simpa using first.last
    | append_singleton u c => simpa using second.last

theorem Framed.imp {good fine : Prop} (framed : Framed opts t good) (implies : good → fine) : Framed opts t fine where
  back clear other outside := (framed.back clear other outside).imp_right implies
  head := framed.head
  last := framed.last

/-- The characters between the literals of a statement. -/
def isCode (c : Char) : Bool := !isQuote c && c ≠ '$' && c ≠ '/' && c ≠ '\\' && c ≠ '\n'

theorem isCode_ne {d : Char} (code : isCode c = true) (other : isCode d = false) : c ≠ d := by
  rintro rfl
  simp [code] at other

private theorem framed_char (code : isCode c = true) : Framed opts [c] True where
  back {before next rest} _ other outside := by
    refine ⟨?_, trivial⟩
    obtain ⟨front, word, split, bytes, stands⟩ := outside
    cases word using List.reverseRecOn with
    | append_singleton word d =>
      rw [← append_assoc] at split
      obtain ⟨rfl, -⟩ := append_inj' split rfl
      exact ⟨front, word, rfl, fun e mem => bytes e (by simp [mem]), by simpa using stands⟩
    | nil =>
      rw [append_nil] at split
      rw [← split] at stands
      obtain ⟨front, d, u, parts, stands, size⟩ := aligned_behind stands (by simp)
      have last : (d :: u).getLast? = some c := by rw [← getLast?_append_cons front, ← parts, getLast?_concat]
      rcases jump_ends size with ⟨rfl, -⟩ | ⟨quote, -, same⟩ | dollar | slash | line | bytes
      · obtain ⟨rfl, -⟩ := append_inj' parts rfl
        exact ⟨before, [], by simp, by simp, by simpa using stands⟩
      · rw [getLast?_cons, same] at last
        cases last
        simp [isCode, quote] at code
      · rw [dollar] at last
        cases last
        cases code
      · rw [slash] at last
        cases last
        cases code
      · exact absurd line other
      · obtain ⟨word, whole⟩ : ∃ word, d :: u = word ++ [c] := getLast?_eq_some_iff.mp last
        rw [whole, ← append_assoc] at parts
        obtain ⟨rfl, -⟩ := append_inj' parts rfl
        exact ⟨front, word, rfl, fun e mem => bytes e (by rw [whole]; simp [mem]), by simpa using stands⟩
  head := by simpa using isCode_ne code (by decide)
  last := by simpa using isCode_ne code (by decide)

theorem framed_code (code : t.all isCode = true) : Framed opts t True := by
  induction t with
  | nil => exact framed_nil
  | cons c t ih =>
    rw [all_cons, Bool.and_eq_true] at code
    have whole := (@framed_char opts c code.1).append (ih code.2)
    exact whole.imp fun _ => trivial

/-! ### Going back over a literal -/

/-- Every quote character comes in a pair, as an encoder writes it. -/
inductive Paired (quote : Char) : Text → Prop
  | nil : Paired quote []
  | plain {c : Char} {t : Text} (other : c ≠ quote) (later : Paired quote t) : Paired quote (c :: t)
  | pair {t : Text} (later : Paired quote t) : Paired quote (quote :: quote :: t)

variable {quote : Char}

private theorem paired_at {a b : Text} (paired : Paired quote (a ++ quote :: b)) :
    (∃ c, b = quote :: c) ∨ ∃ c, a = c ++ [quote] ∧ Paired quote c ∧ Paired quote b := by
  generalize whole : a ++ quote :: b = t at paired
  induction paired generalizing a with
  | nil => simp at whole
  | plain other later ih =>
    cases a with
    | nil =>
      cases whole
      exact absurd rfl other
    | cons d a =>
      obtain ⟨rfl, tail⟩ := cons_eq_cons.mp whole
      rcases ih tail with first | ⟨c, rfl, front, behind⟩
      · exact .inl first
      · exact .inr ⟨d :: c, rfl, .plain other front, behind⟩
  | pair later ih =>
    match a with
    | [] =>
      cases whole
      exact .inl ⟨_, rfl⟩
    | [d] =>
      cases whole
      exact .inr ⟨[], rfl, .nil, later⟩
    | d :: e :: a =>
      obtain ⟨same, tail⟩ := cons_eq_cons.mp whole
      obtain ⟨rfl, tail⟩ := cons_eq_cons.mp tail
      rcases ih tail with first | ⟨c, rfl, front, behind⟩
      · exact .inl first
      · exact .inr ⟨d :: e :: c, rfl, by rw [same]; exact .pair front, behind⟩

private theorem quotedSkip_le (ordinary : quote ≠ '\\') : ∀ {a b : Text}, a.getLast? ≠ some '\\' →
    quotedSkip quote (a ++ quote :: b) ≤ a.length + 1
  | [], b, _ => (quotedSkip_close ordinary b).le
  | [c], b, clear => by
    by_cases closing : c = quote
    · simp [closing, quotedSkip_close ordinary]
    · have plain : c ≠ '\\' := by simpa using clear
      simp [quotedSkip_cons plain closing, quotedSkip_close ordinary]
  | c :: d :: a, b, clear => by
    simp only [cons_append, length_cons]
    by_cases escape : c = '\\'
    · have clear_a : a.getLast? ≠ some '\\' := by cases a <;> simp_all
      have inner := quotedSkip_le ordinary (b := b) clear_a
      rw [escape, quotedSkip_escape]
      omega
    by_cases closing : c = quote
    · rw [closing, quotedSkip_close ordinary]
      omega
    have inner := quotedSkip_le ordinary (a := d :: a) (b := b) (by simpa using clear)
    rw [quotedSkip_cons escape closing]
    simp only [cons_append, length_cons] at inner
    omega

private theorem quotedBody_of_skip (ordinary : quote ≠ '\\') : ∀ {body rest : Text},
    Paired quote body → quotedSkip quote (body ++ quote :: next :: rest) = body.length + 1 → quotedBody quote body = true
  | [], rest, _, _ => rfl
  | [c], rest, .plain other _, ends => by
    have plain : c ≠ '\\' := by
      rintro rfl
      cases rest <;> simp [quotedSkip] at ends
      split_ifs at ends <;> omega
    simp [quotedBody, plain, other]
  | _ :: _ :: body, rest, .pair _, ends => by
    rw [cons_append, quotedSkip_close ordinary] at ends
    simp at ends
  | c :: d :: body, rest, .plain other later, ends => by
    simp only [cons_append, length_cons] at ends
    by_cases escape : c = '\\'
    · subst escape
      rw [quotedSkip_escape] at ends
      cases later with
      | plain hides later =>
        have inner : quotedSkip quote (body ++ quote :: next :: rest) = body.length + 1 := by omega
        rw [quotedBody_escape hides, quotedBody_of_skip ordinary later inner]
      | pair later =>
        rw [cons_append, quotedSkip_close ordinary] at ends
        simp at ends
    · rw [quotedSkip_cons escape other] at ends
      have inner : quotedSkip quote (d :: body ++ quote :: next :: rest) = (d :: body).length + 1 := by
        simp only [cons_append, length_cons]
        omega
      rw [quotedBody_cons escape other, quotedBody_of_skip ordinary later inner]

private theorem quotedBody_append {quote : Char} (ordinary : quote ≠ '\\') : ∀ {a b : Text},
    quotedBody quote a = true → quotedBody quote b = true → quotedBody quote (a ++ quote :: quote :: b) = true
  | [], b, _, later => by rwa [List.nil_append, quotedBody_pair ordinary]
  | [c], b, first, later => by
    simp only [quotedBody, Bool.and_eq_true, decide_eq_true_eq] at first
    rw [List.singleton_append, quotedBody_cons first.1 first.2, quotedBody_pair ordinary, later]
  | c :: d :: a, b, first, later => by
    simp only [List.cons_append]
    by_cases escape : c = '\\'
    · subst escape
      simp only [quotedBody, if_true, Bool.and_eq_true, decide_eq_true_eq] at first
      rw [quotedBody_escape first.1, quotedBody_append ordinary first.2 later]
    by_cases closing : c = quote
    · subst closing
      simp only [quotedBody, escape, if_false, if_true, Bool.and_eq_true, decide_eq_true_eq] at first
      rw [first.1, quotedBody_pair ordinary, quotedBody_append ordinary first.2 later]
    · rw [quotedBody_cons escape closing] at first ⊢
      exact quotedBody_append ordinary (a := d :: a) first later

private theorem quote_notWord (isquote : isQuote quote = true) : isWordByte quote = false := by
  simp only [isQuote, Bool.or_eq_true, beq_iff_eq] at isquote
  rcases isquote with (rfl | rfl) | rfl <;> decide

/-- Behind the closing quote of a literal the splitter stands only when it has
    stood in front of the opening one and has passed the literal. -/
private theorem aligned_quoted (isquote : isQuote quote = true) {before body rest : Text}
    (paired : Paired quote body) (clear : before.getLast? ≠ some '\\') (other : next ≠ '\n')
    (stands : aligned opts 0 (before ++ (quote :: body ++ [quote]) ++ next :: rest) (before ++ (quote :: body ++ [quote])).length = true) :
    aligned opts 0 (before ++ (quote :: body ++ [quote]) ++ next :: rest) before.length = true ∧ quotedBody quote body = true := by
  generalize size : body.length = n
  induction n using Nat.strong_induction_on generalizing body next rest with
  | _ n ih =>
    have ordinary : quote ≠ '\\' := by
      rintro rfl
      cases isquote
    obtain ⟨front, c, u, parts, earlier, jump⟩ := aligned_behind stands (by simp)
    have last : (c :: u).getLast? = some quote := by
      rw [← getLast?_append_cons front, ← parts, getLast?_append_of_ne_nil _ (by simp), getLast?_concat]
    rcases jump_ends jump with ⟨rfl, plain⟩ | ⟨-, skip, same⟩ | dollar | slash | line | bytes
    · obtain rfl : c = quote := by simpa using last
      simp [isquote] at plain
    · obtain rfl : c = quote := by simpa [getLast?_cons, same] using last
      obtain ⟨inner, rfl⟩ : ∃ inner, u = inner ++ [c] := getLast?_eq_some_iff.mp same
      have whole : before ++ c :: body = front ++ c :: inner := by
        have closed : (before ++ c :: body) ++ [c] = (front ++ c :: inner) ++ [c] := by simpa using parts
        exact (append_inj' closed rfl).1
      have region : quotedSkip c (inner ++ c :: next :: rest) = inner.length + 1 := by simpa using skip
      rcases append_eq_append_iff.mp whole with ⟨_ | ⟨_, x⟩, rfl, tail⟩ | ⟨_ | ⟨_, x⟩, rfl, tail⟩
      · cases tail
        exact ⟨by simpa using earlier, quotedBody_of_skip ordinary paired region⟩
      · -- the jump starts at a quote character inside the literal, the second one of its pair
        obtain ⟨rfl, (split : body = x ++ c :: inner)⟩ := cons_eq_cons.mp tail
        subst split
        rcases paired_at paired with ⟨e, rfl⟩ | ⟨e, rfl, front, later⟩
        · rw [cons_append, quotedSkip_close ordinary, length_cons] at region
          omega
        have text : before ++ (c :: (e ++ [c] ++ c :: inner) ++ [c]) ++ next :: rest =
            before ++ (c :: e ++ [c]) ++ c :: (inner ++ c :: next :: rest) := by simp
        rw [text] at earlier ⊢
        have shorter : e.length < n := by simp at size; omega
        have line : c ≠ '\n' := by
          rintro rfl
          cases isquote
        obtain ⟨start, good⟩ := ih e.length shorter front line (by simpa using earlier) rfl
        refine ⟨start, ?_⟩
        rw [append_assoc, singleton_append]
        exact quotedBody_append ordinary good (quotedBody_of_skip ordinary later region)
      · cases tail
        exact ⟨by simpa using earlier, quotedBody_of_skip ordinary paired region⟩
      · -- the jump starts before the literal and would end at its opening quote
        obtain ⟨rfl, (split : inner = x ++ c :: body)⟩ := cons_eq_cons.mp tail
        subst split
        have clear_x : x.getLast? ≠ some '\\' := by
          cases x with
          | nil => simp
          | cons d x => rwa [getLast?_append_cons, getLast?_cons_cons] at clear
        have early := @quotedSkip_le c ordinary x (body ++ c :: next :: rest) clear_x
        simp only [append_assoc, cons_append] at region
        rw [region, length_append, length_cons] at early
        omega
    · rw [dollar] at last
      cases last
      cases isquote
    · rw [slash] at last
      cases last
      cases isquote
    · exact absurd line other
    · have byte := bytes quote (mem_of_getLast? last)
      simp [quote_notWord isquote] at byte

theorem framed_quoted (isquote : isQuote quote = true) {body : Text} (paired : Paired quote body) :
    Framed opts (quote :: body ++ [quote]) (quotedBody quote body = true) where
  back {before next rest} clear other outside := by
    obtain ⟨front, word, split, bytes, stands⟩ := outside
    cases word using List.reverseRecOn with
    | nil =>
      rw [append_nil] at split
      rw [← split] at stands
      obtain ⟨start, good⟩ := aligned_quoted isquote paired clear other stands
      exact ⟨⟨before, [], by simp, by simp, by simpa using start⟩, good⟩
    | append_singleton word d =>
      have last : d = quote := by
        have whole := congrArg List.getLast? split
        rw [getLast?_append_of_ne_nil _ (by simp), getLast?_append_of_ne_nil _ (by simp)] at whole
        simpa using whole.symm
      have byte := bytes quote (by simp [last])
      simp [quote_notWord isquote] at byte
  head := by
    rintro head
    cases head
    cases isquote
  last := by
    rw [getLast?_concat]
    rintro last
    cases last
    cases isquote

theorem word_frame (state : SplitState) (word rest : Text) :
    (state.word word rest).out = state.out ∧ (state.word word rest).segment = state.segment := by
  simp only [SplitState.word]
  split_ifs <;> exact ⟨rfl, rfl⟩

variable {state : SplitState}

private theorem emit_out {next : SplitState} (emitted : state.emit none = some next) :
    (trim state.segment = [] ∧ next.out = state.out) ∨ next.out = state.out ++ [trim state.segment] := by
  simp only [SplitState.emit, Option.any_none, Bool.false_eq_true, if_false] at emitted
  split_ifs at emitted with empty
  · cases emitted
    exact .inl ⟨isEmpty_iff.mp empty, rfl⟩
  · cases emitted
    exact .inr rfl

variable {out : List Text}

private theorem splitFrom_cases (split : splitFrom opts none 0 state (c :: t) = some out) :
    (∃ moved : SplitState, moved.out = state.out ∧ moved.segment = state.segment ++ [c] ∧
      splitFrom opts none (behind opts c t) moved t = some out) ∨
    (c = ';' ∧ ∃ next, state.emit none = some next ∧ splitFrom opts none 0 next t = some out) := by
  rw [splitFrom] at split
  by_cases semicolon : c = ';'
  · split_ifs at split with inside
    · exact .inl ⟨state.push c, rfl, rfl, by rw [behind, if_pos semicolon]; exact split⟩
    cases emitted : state.emit none with
    | none => simp [emitted] at split
    | some next =>
      rw [emitted] at split
      exact .inr ⟨semicolon, next, rfl, split⟩
  · rw [if_neg semicolon] at split
    refine .inl ⟨_, ?_, ?_, by rw [behind, if_neg semicolon]; exact split⟩
    · split_ifs
      · exact (word_frame ..).1
      · rfl
    · split_ifs
      · rw [SplitState.push, (word_frame ..).2]
      · rfl

private theorem splitFrom_out (split : splitFrom opts none skip state t = some out) : ∃ more, out = state.out ++ more := by
  induction t generalizing skip state with
  | nil =>
    obtain ⟨next, emitted, rfl⟩ := Option.map_eq_some_iff.mp split
    rcases emit_out emitted with ⟨-, same⟩ | more
    · exact ⟨[], by rw [same, append_nil]⟩
    · exact ⟨_, more⟩
  | cons c t ih =>
    cases skip with
    | succ skip =>
      have onward : splitFrom opts none skip (state.push c) t = some out := split
      obtain ⟨more, whole⟩ := ih onward
      exact ⟨more, whole⟩
    | zero =>
      rcases splitFrom_cases split with ⟨moved, same, -, onward⟩ | ⟨-, next, emitted, onward⟩
      · rw [← same]
        exact ih onward
      obtain ⟨more, rfl⟩ := ih onward
      rcases emit_out emitted with ⟨-, same⟩ | one
      · exact ⟨more, by rw [same]⟩
      · exact ⟨_ :: more, by rw [one, append_assoc]; rfl⟩

/-- The splitter ends its segment at the end of the text, or at a semicolon in
    front of which it stands; a segment that is not blank is its next piece. -/
theorem splitFrom_first (split : splitFrom opts none skip state t = some out) : ∃ piece rest, t = piece ++ rest ∧
      (rest = [] ∨ ∃ more, rest = ';' :: more ∧ aligned opts skip t piece.length = true) ∧
      (trim (state.segment ++ piece) = [] ∨ ∃ more, out = state.out ++ trim (state.segment ++ piece) :: more) := by
  induction t generalizing skip state with
  | nil =>
    obtain ⟨next, emitted, rfl⟩ := Option.map_eq_some_iff.mp split
    refine ⟨[], [], rfl, .inl rfl, ?_⟩
    rw [append_nil]
    rcases emit_out emitted with ⟨blank, -⟩ | one
    · exact .inl blank
    · exact .inr ⟨[], one⟩
  | cons c t ih =>
    cases skip with
    | succ skip =>
      have onward : splitFrom opts none skip (state.push c) t = some out := split
      obtain ⟨piece, rest, whole, stop, ends⟩ := ih onward
      refine ⟨c :: piece, rest, by rw [whole]; rfl, stop.imp_right id, ?_⟩
      simpa [SplitState.push] using ends
    | zero =>
      rcases splitFrom_cases split with ⟨moved, same, pushed, onward⟩ | ⟨semicolon, next, emitted, onward⟩
      · obtain ⟨piece, rest, whole, stop, ends⟩ := ih onward
        refine ⟨c :: piece, rest, by rw [whole]; rfl, stop.imp_right id, ?_⟩
        rw [same, pushed, append_assoc] at ends
        exact ends
      refine ⟨[], c :: t, rfl, .inr ⟨t, by rw [semicolon], by rfl⟩, ?_⟩
      rw [append_nil]
      rcases emit_out emitted with ⟨blank, -⟩ | one
      · exact .inl blank
      · obtain ⟨more, rfl⟩ := splitFrom_out onward
        exact .inr ⟨more, by rw [one, append_assoc]; rfl⟩

end Ramag.SplitMisread
