import Mathlib
import Ramag.Strings

/-!
# Identifiers in another base

An identifier is the text of a number over an alphabet. The two directions undo
each other, up to leading zeros, letter case and the `0x` of base 16
(`id_conversion`). All alphabets are ASCII, so their bytes are their characters.
-/

namespace Ramag.IdConversion
open Strings List

def BASE10_ALPHABET : Text := "0123456789"
def BASE16_ALPHABET : Text := "0123456789abcdef"
def BASE36_ALPHABET : Text := "0123456789abcdefghijklmnopqrstuvwxyz"
def BASE58_BITCOIN_ALPHABET : Text := "123456789ABCDEFGHJKLMNPQRSTUVWXYZabcdefghijkmnopqrstuvwxyz"
def BASE58_FLICKR_ALPHABET : Text := "123456789abcdefghijkmnopqrstuvwxyzABCDEFGHJKLMNPQRSTUVWXYZ"
def I64_MAX : Nat := 2 ^ 63 - 1

inductive IdConverterKind
  | Base10
  | Base16
  | Base36
  | Base58Bitcoin
  | Base58Flickr
  | CustomAlphabet
  | ExternalProgram

structure IdConverterConfig where
  kind : IdConverterKind
  customAlphabet : Text := []

def validateCustomAlphabet (alphabet : Text) : Except Text Unit :=
  if alphabet.any (128 ≤ ·.toNat) then .error "自定义字符表只支持可见 ASCII 字符"
  else if alphabet.any fun c => ¬ ('!' ≤ c ∧ c ≤ '~') then .error "自定义字符表只支持可见 ASCII 字符，不能包含空格"
  else if ¬ alphabet.Nodup then .error "自定义字符表不能包含重复字符"
  else if alphabet.length < 2 then .error "自定义字符表至少需要 2 个字符"
  else .ok ()

def escapeDefault : Char → Text
  | '\t' => "\\t"
  | '\r' => "\\r"
  | '\n' => "\\n"
  | '\'' => "\\'"
  | '"' => "\\\""
  | '\\' => "\\\\"
  | c => if ' ' ≤ c ∧ c ≤ '~' then [c] else "\\u\x7b" ++ Nat.toDigits 16 c.toNat ++ ['}']

def folded (caseInsensitive : Bool) (c : Char) : Char := if caseInsensitive then c.toLower else c

/-- The product is checked too, but it is at most the sum. -/
def decodeLoop (alphabet : Text) (caseInsensitive : Bool) (value : Nat) : Text → Except Text Nat
  | [] => .ok value
  | c :: rest =>
    match alphabet.idxOf? (folded caseInsensitive c) with
    | none => .error ("ID 搜索词包含字符表之外的字符：" ++ escapeDefault c)
    | some digit =>
      if I64_MAX < value * alphabet.length + digit then .error "ID 转换结果超出非负 i64 范围"
      else decodeLoop alphabet caseInsensitive (value * alphabet.length + digit) rest

def decodePositionalI64 (input alphabet : Text) (caseInsensitive : Bool) : Except Text Nat :=
  if input = [] then .error "ID 搜索词不能为空"
  else if input.any (128 ≤ ·.toNat) then .error "ID 搜索词包含当前字符表不支持的字符"
  else decodeLoop alphabet caseInsensitive 0 input

def encodeLoop (alphabet : Text) (two : 2 ≤ alphabet.length) (value : Nat) (encoded : Text) : Except Text Text :=
  if value = 0 then .ok encoded
  else
    match alphabet[value % alphabet.length]? with
    | none => .error "ID 转换字符位置超出支持范围"
    | some character => encodeLoop alphabet two (value / alphabet.length) (character :: encoded)
  termination_by value
  decreasing_by exact Nat.div_lt_self (by omega) two

def encodePositionalI64 (value : Int) (alphabet : Text) : Except Text Text :=
  if value < 0 then .error "整数 ID 不能为负数"
  else if few : alphabet.length < 2 then .error "ID 转换字符表至少需要 2 个字符"
  else if value = 0 then .ok (alphabet.take 1)
  else encodeLoop alphabet (Nat.not_lt.mp few) value.toNat []

namespace IdConverterKind

/-- The input without the mark of base 16. -/
def unmarked (input : Text) : IdConverterKind → Text
  | .Base16 => ((stripPrefix "0x" input).or (stripPrefix "0X" input)).getD input
  | _ => input

def caseInsensitive : IdConverterKind → Bool
  | .Base16 | .Base36 => true
  | _ => false

end IdConverterKind

namespace IdConverterConfig
variable (config : IdConverterConfig)

/-- The characters that both directions work with. -/
def localAlphabet : Except Text Text :=
  match config.kind with
  | .Base10 => .ok BASE10_ALPHABET
  | .Base16 => .ok BASE16_ALPHABET
  | .Base36 => .ok BASE36_ALPHABET
  | .Base58Bitcoin => .ok BASE58_BITCOIN_ALPHABET
  | .Base58Flickr => .ok BASE58_FLICKR_ALPHABET
  | .CustomAlphabet => do
    validateCustomAlphabet config.customAlphabet
    .ok config.customAlphabet
  | .ExternalProgram => .error "外部 ID 转换器不能在进程内执行"

def decodeLocal (input : Text) : Except Text Nat := do
  decodePositionalI64 (config.kind.unmarked input) (← config.localAlphabet) config.kind.caseInsensitive

def encodeLocal (value : Int) : Except Text Text := do
  encodePositionalI64 value (← config.localAlphabet)

end IdConverterConfig

/-! ### What a text stands for -/

/-- The digits of an input, in lower case where the case does not count. -/
def IdConverterKind.digits (kind : IdConverterKind) (input : Text) : Text :=
  (kind.unmarked input).map (folded kind.caseInsensitive)

/-- The number that the digits stand for. -/
def denoted (alphabet s : Text) : Nat := Nat.ofDigits alphabet.length (s.map alphabet.idxOf).reverse

/-- No zero stands in front, except for the number zero. -/
def canonical (alphabet s : Text) : Text :=
  match s.dropWhile fun c => alphabet.idxOf c = 0 with
  | [] => alphabet.take 1
  | rest => rest

structure Alphabet (alphabet : Text) : Prop where
  two : 2 ≤ alphabet.length
  distinct : alphabet.Nodup
  ascii : alphabet.all fun c => c.toNat < 128

variable {alphabet s : Text}

theorem denoted_cons (c : Char) : denoted alphabet (c :: s) = alphabet.idxOf c * alphabet.length ^ s.length + denoted alphabet s := by
  simp only [denoted, map_cons, reverse_cons, Nat.ofDigits_append, Nat.ofDigits_singleton, length_reverse, length_map]
  ring

theorem decodeLoop_ok (distinct : alphabet.Nodup) {caseInsensitive : Bool} {value total : Nat} (small : value ≤ I64_MAX) :
    decodeLoop alphabet caseInsensitive value s = .ok total ↔ (∀ c ∈ s.map (folded caseInsensitive), c ∈ alphabet) ∧
        value * alphabet.length ^ s.length + denoted alphabet (s.map (folded caseInsensitive)) = total ∧ total ≤ I64_MAX := by
  induction s generalizing value with
  | nil =>
    simp only [decodeLoop, Except.ok.injEq, map_nil, not_mem_nil, false_implies, implies_true, true_and, length_nil, pow_zero,
      mul_one, denoted, reverse_nil, Nat.ofDigits_nil, add_zero]
    omega
  | cons c rest ih =>
    rw [decodeLoop, map_cons, forall_mem_cons]
    generalize folded caseInsensitive c = c'
    cases found : alphabet.idxOf? c' with
    | none => simp [idxOf?_eq_none_iff.mp found]
    | some digit =>
      obtain ⟨inside, rfl, first⟩ := idxOf?_eq_some_iff.mp found
      have here : alphabet.idxOf alphabet[digit] = digit := distinct.idxOf_getElem digit inside
      have more : 1 ≤ alphabet.length ^ rest.length := Nat.one_le_pow _ _ (by omega)
      have total_eq : (value * alphabet.length + digit) * alphabet.length ^ rest.length =
          value * alphabet.length ^ (rest.length + 1) + digit * alphabet.length ^ rest.length := by ring
      rw [denoted_cons, here, length_map, length_cons]
      dsimp only
      split_ifs with large
      · have := Nat.le_mul_of_pos_right (value * alphabet.length + digit) more
        refine ⟨nofun, fun ⟨_, _, _⟩ => by omega⟩
      · rw [ih (by omega), total_eq, add_assoc]
        simp

theorem folded_high {insensitive : Bool} {c : Char} (high : 128 ≤ c.toNat) : folded insensitive c = c := by
  have above : ¬ (c.val ≥ 'A'.val ∧ c.val ≤ 'Z'.val) := fun letter => by
    have low : c.toNat ≤ 90 := letter.2
    omega
  rw [folded, Char.toLower, dif_neg above, ite_self]

theorem decodePositionalI64_ok (sound : Alphabet alphabet) {insensitive : Bool} {value : Nat} :
    decodePositionalI64 s alphabet insensitive = .ok value ↔
      s.map (folded insensitive) ≠ [] ∧ (∀ c ∈ s.map (folded insensitive), c ∈ alphabet) ∧
        denoted alphabet (s.map (folded insensitive)) = value ∧ value ≤ I64_MAX := by
  rw [decodePositionalI64]
  split_ifs with empty other
  · simp [empty]
  · refine ⟨nofun, fun ⟨_, known, _⟩ => ?_⟩
    obtain ⟨c, mem, high⟩ := any_eq_true.mp other
    have ascii := all_eq_true.mp sound.ascii _ (known _ (mem_map_of_mem mem))
    rw [folded_high (of_decide_eq_true high)] at ascii
    exact absurd (of_decide_eq_true high) (Nat.not_le.mpr (of_decide_eq_true ascii))
  · rw [decodeLoop_ok sound.distinct (Nat.zero_le _)]
    simp [empty]

/-! ### Writing a number -/

theorem encodeLoop_ok (sound : Alphabet alphabet) (value : Nat) (encoded : Text) :
    ∃ w, encodeLoop alphabet sound.two value encoded = .ok (w ++ encoded) ∧ (∀ c ∈ w, c ∈ alphabet) ∧
      w.map alphabet.idxOf = (Nat.digits alphabet.length value).reverse := by
  induction value using Nat.strongRecOn generalizing encoded with
  | ind value ih =>
    rw [encodeLoop]
    split_ifs with zero
    · exact ⟨[], rfl, nofun, by simp [zero]⟩
    · have inside : value % alphabet.length < alphabet.length := Nat.mod_lt _ (by have := sound.two; omega)
      have less : value / alphabet.length < value := Nat.div_lt_self (by omega) sound.two
      obtain ⟨w, done, known, digits⟩ := ih _ less (alphabet[value % alphabet.length] :: encoded)
      rw [getElem?_eq_getElem inside]
      refine ⟨w ++ [alphabet[value % alphabet.length]], by simp [done], ?_, ?_⟩
      · rw [forall_mem_append, forall_mem_singleton]
        exact ⟨known, getElem_mem inside⟩
      · rw [Nat.digits_def' sound.two (by omega), reverse_cons, map_append, digits, map_singleton, sound.distinct.idxOf_getElem]

theorem encodePositionalI64_ok (sound : Alphabet alphabet) (value : Nat) :
    ∃ w, encodePositionalI64 value alphabet = .ok w ∧ w ≠ [] ∧ (∀ c ∈ w, c ∈ alphabet) ∧
      w.map alphabet.idxOf = if value = 0 then [0] else (Nat.digits alphabet.length value).reverse := by
  have two := sound.two
  rw [encodePositionalI64, if_neg (by omega), dif_neg (by omega)]
  split_ifs with zero zero' zero'
  · obtain ⟨first, rest, rfl⟩ := exists_cons_of_length_pos (l := alphabet) (by omega)
    exact ⟨[first], rfl, nofun, by simp, by simp⟩
  · omega
  · omega
  · obtain ⟨w, done, known, digits⟩ := encodeLoop_ok sound value []
    refine ⟨w, by simpa using done, ?_, known, digits⟩
    rintro rfl
    rw [map_nil, eq_comm, reverse_eq_nil_iff, Nat.digits_eq_nil_iff_eq_zero] at digits
    omega

theorem canonical_ok (two : 2 ≤ alphabet.length) (known : ∀ c ∈ s, c ∈ alphabet) :
    (∀ c ∈ canonical alphabet s, c ∈ alphabet) ∧ (canonical alphabet s).map alphabet.idxOf =
      if denoted alphabet s = 0 then [0] else (Nat.digits alphabet.length (denoted alphabet s)).reverse := by
  induction s with
  | nil =>
    obtain ⟨first, rest, rfl⟩ := exists_cons_of_length_pos (l := alphabet) (by omega)
    simp [canonical, denoted]
  | cons c rest ih =>
    by_cases zero : alphabet.idxOf c = 0
    · have same : canonical alphabet (c :: rest) = canonical alphabet rest := by simp [canonical, zero]
      rw [same, denoted_cons, zero, Nat.zero_mul, Nat.zero_add]
      exact ih (forall_mem_cons.mp known).2
    · have same : canonical alphabet (c :: rest) = c :: rest := by simp [canonical, zero]
      have digits : Nat.digits alphabet.length (denoted alphabet (c :: rest)) = ((c :: rest).map alphabet.idxOf).reverse := by
        refine Nat.digits_ofDigits _ two _ (fun digit mem => ?_) (fun _ => by simpa using zero)
        obtain ⟨d, there, rfl⟩ := mem_map.mp (mem_reverse.mp mem)
        exact idxOf_lt_length_of_mem (known d there)
      have positive : denoted alphabet (c :: rest) ≠ 0 := fun none => by simp [none] at digits
      rw [same, if_neg positive, digits, reverse_reverse]
      exact ⟨known, rfl⟩

/-! ### The configured alphabet -/

theorem validateCustomAlphabet_ok (valid : validateCustomAlphabet alphabet = .ok ()) : Alphabet alphabet := by
  unfold validateCustomAlphabet at valid
  split_ifs at valid with other invisible repeated few
  refine ⟨by omega, repeated, all_eq_true.mpr fun c mem => decide_eq_true ?_⟩
  by_contra high
  exact other (any_eq_true.mpr ⟨c, mem, decide_eq_true (Nat.not_lt.mp high)⟩)

theorem localAlphabet_sound {config : IdConverterConfig} (accepted : config.localAlphabet = .ok alphabet) :
    Alphabet alphabet ∧ (alphabet.all fun c => folded config.kind.caseInsensitive c = c) ∧
      ∀ w : Text, (∀ c ∈ w, c ∈ alphabet) → config.kind.unmarked w = w := by
  obtain ⟨kind, custom⟩ := config
  cases kind
  case CustomAlphabet =>
    simp only [IdConverterConfig.localAlphabet] at accepted
    cases valid : validateCustomAlphabet custom with
    | error => simp [valid, bind, Except.bind] at accepted
    | ok =>
      simp only [valid, bind, Except.bind, Except.ok.injEq] at accepted
      exact ⟨accepted ▸ validateCustomAlphabet_ok valid, all_eq_true.mpr fun _ _ => decide_eq_true rfl, fun _ _ => rfl⟩
  case Base16 =>
    cases accepted
    refine ⟨⟨by decide, by decide, rfl⟩, rfl, fun w known => ?_⟩
    have marked : ∀ {p : Text} {c : Char}, c ∈ p → c ∉ BASE16_ALPHABET → stripPrefix p w = none := fun mem absent =>
      if_neg fun front => absent (known _ (( isPrefixOf_iff_prefix.mp front).subset mem))
    rw [IdConverterKind.unmarked, @marked "0x" 'x' (by decide) (by decide), @marked "0X" 'X' (by decide) (by decide)]
    rfl
  case ExternalProgram => cases accepted
  all_goals
    cases accepted
    exact ⟨⟨by decide, by decide, rfl⟩, rfl, fun _ _ => rfl⟩

theorem words_eq {w w' : Text} (known : ∀ c ∈ w, c ∈ alphabet) (known' : ∀ c ∈ w', c ∈ alphabet)
    (same : w.map alphabet.idxOf = w'.map alphabet.idxOf) : w = w' := by
  have back : ∀ v : Text, (∀ c ∈ v, c ∈ alphabet) → (v.map alphabet.idxOf).map (alphabet[·]?) = v.map some := by
    intro v known
    rw [map_map]
    exact map_congr_left fun c mem => List.getElem?_eq_some_iff.mpr ⟨idxOf_lt_length_of_mem (known c mem), getElem_idxOf _⟩
  exact map_injective_iff.mpr (Option.some_injective _) ((back w known).symm.trans (same ▸ back w' known'))

/-- A number is read back from its text, and a text comes back in its canonical
form. No text is read without a digit, with a character that is none, or of a
number that is too large. -/
theorem id_conversion {config : IdConverterConfig} {alphabet : Text} (accepted : config.localAlphabet = .ok alphabet) :
    (∀ value : Nat, value ≤ I64_MAX → ∃ s, config.encodeLocal value = .ok s ∧ config.decodeLocal s = .ok value) ∧
      (∀ s value, config.decodeLocal s = .ok value → config.encodeLocal value = .ok (canonical alphabet (config.kind.digits s))) ∧
      ∀ s, (∃ error, config.decodeLocal s = .error error) ↔
        config.kind.digits s = [] ∨ (∃ c ∈ config.kind.digits s, c ∉ alphabet) ∨ I64_MAX < denoted alphabet (config.kind.digits s) := by
  obtain ⟨sound, small, unmarked⟩ := localAlphabet_sound accepted
  have encode : ∀ value, config.encodeLocal value = encodePositionalI64 value alphabet := by
    simp [IdConverterConfig.encodeLocal, accepted, bind, Except.bind]
  have decode : ∀ s value, config.decodeLocal s = .ok value ↔ config.kind.digits s ≠ [] ∧
      (∀ c ∈ config.kind.digits s, c ∈ alphabet) ∧ denoted alphabet (config.kind.digits s) = value ∧ value ≤ I64_MAX := by
    intro s value
    rw [IdConverterConfig.decodeLocal, accepted]
    exact decodePositionalI64_ok sound
  refine ⟨fun value fits => ?_, fun s value read => ?_, fun s => ?_⟩
  · obtain ⟨w, done, nonempty, known, digits⟩ := encodePositionalI64_ok sound value
    have same : config.kind.digits w = w := by
      rw [IdConverterKind.digits, unmarked w known]
      exact (map_congr_left fun c mem => of_decide_eq_true (all_eq_true.mp small c (known c mem))).trans (map_id' w)
    refine ⟨w, (encode value).trans done, (decode w value).mpr ?_⟩
    rw [same]
    refine ⟨nonempty, known, ?_, fits⟩
    rw [denoted, digits]
    split_ifs with zero
    · exact zero ▸ rfl
    · rw [reverse_reverse, Nat.ofDigits_digits]
  · obtain ⟨-, known, rfl, -⟩ := (decode s value).mp read
    obtain ⟨w, done, -, known', digits⟩ := encodePositionalI64_ok sound (denoted alphabet (config.kind.digits s))
    obtain ⟨known'', digits'⟩ := canonical_ok sound.two known
    rw [encode, done, words_eq known' known'' (digits.trans digits'.symm)]
  · have fails : (∃ error, config.decodeLocal s = .error error) ↔ ∀ value, config.decodeLocal s ≠ .ok value := by
      cases config.decodeLocal s <;> simp
    simp only [fails, ne_eq, decode, not_and, not_le]
    constructor
    · intro all
      by_contra! ok
      exact absurd (all _ ok.1 ok.2.1 rfl) (Nat.not_lt.mpr ok.2.2)
    · rintro (empty | ⟨c, mem, other⟩ | large) value nonempty known rfl
      · exact absurd empty nonempty
      · exact absurd (known c mem) other
      · exact large

theorem id_conversion_custom : ∃ s, (⟨.CustomAlphabet, "abc"⟩ : IdConverterConfig).encodeLocal (15 : Nat) = .ok s ∧
    (⟨.CustomAlphabet, "abc"⟩ : IdConverterConfig).decodeLocal s = .ok 15 :=
  (@id_conversion ⟨.CustomAlphabet, "abc"⟩ "abc" rfl).1 15 (by decide)

theorem id_conversion_marked : ((⟨.Base16, []⟩ : IdConverterConfig).decodeLocal "0x1f" = .ok 31 ∧ 'x' ∉ BASE16_ALPHABET) ∧
      ((⟨.Base10, []⟩ : IdConverterConfig).decodeLocal "00" = .ok 0 ∧ (⟨.Base10, []⟩ : IdConverterConfig).encodeLocal 0 = .ok "0") ∧
      ∃ error, (⟨.ExternalProgram, []⟩ : IdConverterConfig).encodeLocal 0 = .error error :=
  ⟨by decide, by decide, _, rfl⟩

end Ramag.IdConversion
