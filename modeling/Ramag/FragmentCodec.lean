import Mathlib
import Ramag.RedisFragment

/-!
When a fragment is decoded to the value that was encoded. Every kind has its own
shape, and the shapes agree; what gets lost is a double without a JSON number.
-/
namespace Ramag.FragmentCodec
open Strings Domain Json RedisFragment

/-- An element of a collection: a bulk string, or a number in the newer protocol. -/
inductive Member : RedisValue → Prop
  | text (text : Text) : Member (.Text text)
  | bytes (bytes : List UInt8) : Member (.Bytes bytes)
  | int (number : Int64) : Member (.Int number)
  | float (number : F64) : Member (.Float number)

/-- A page of a key, by the kind of the key. -/
inductive Scanned : RedisType → RedisValue → Prop
  | text (text : Text) : Scanned .String (.Text text)
  | bytes (bytes : List UInt8) : Scanned .String (.Bytes bytes)
  | list (members : List RedisValue) (items : ∀ member ∈ members, Member member) : Scanned .List (.List members)
  | set (members : List RedisValue) (items : ∀ member ∈ members, Member member) : Scanned .Set (.Set members)
  | hash (pairs : List (Text × RedisValue)) (items : ∀ pair ∈ pairs, Member pair.2) : Scanned .Hash (.Hash pairs)
  | zset (pairs : List (RedisValue × F64)) (items : ∀ pair ∈ pairs, Member pair.1) : Scanned .ZSet (.ZSet pairs)
  | stream (entries : List StreamEntry) : Scanned .Stream (.Stream entries)

/-- The hex codec gives the bytes back. -/
def HexLaw (formats : Formats) : Prop := ∀ bytes, formats.hexDecode (formats.hexEncode bytes) = .ok bytes

/-! ### What JSON numbers can hold -/

def FiniteItem : RedisValue → Prop
  | .Float number => number.isFinite = true
  | _ => True

/-- No score and no element is an infinity or a NaN. -/
def FiniteValue : RedisValue → Prop
  | .List members | .Set members => ∀ member ∈ members, FiniteItem member
  | .Hash pairs => ∀ pair ∈ pairs, FiniteItem pair.2
  | .ZSet pairs => ∀ pair ∈ pairs, FiniteItem pair.1 ∧ pair.2.isFinite = true
  | _ => True

section
variable {formats : Formats}

theorem decodeHex_hexEncode (hex : HexLaw formats) (bytes : List UInt8) : decodeHex formats (formats.hexEncode bytes) = .ok bytes := by
  unfold decodeHex
  rw [hex bytes]
  rfl

/-- An element comes back exactly when it is no double without a JSON number. -/
theorem decodeItem_encodeItem (hex : HexLaw formats) {item : RedisValue} (member : Member item) :
    (∃ written, encodeItem formats item = .ok written ∧ decodeItem formats written = .ok item) ↔ FiniteItem item := by
  cases member with
  | text text => exact ⟨fun _ => trivial, fun _ => ⟨_, rfl, rfl⟩⟩
  | bytes bytes =>
    refine ⟨fun _ => trivial, fun _ => ⟨_, rfl, ?_⟩⟩
    show (decodeHex formats (formats.hexEncode bytes) >>= fun bytes => Except.ok (RedisValue.Bytes bytes)) = _
    rw [decodeHex_hexEncode hex]
    rfl
  | int number =>
    refine ⟨fun _ => trivial, fun _ => ⟨_, rfl, ?_⟩⟩
    simp [decodeItem, Value.single, Value.asObject, invalidConfig, List.lookup, bind, Except.bind]
  | float number =>
    show (∃ written, Except.ok (Value.single "f" (.ofF64 number)) = .ok written ∧ _) ↔ number.isFinite = true
    unfold Value.ofF64
    constructor
    · rintro ⟨_, ⟨⟩, read⟩
      by_contra infinite
      rw [if_neg infinite] at read
      cases read
    · intro finite
      exact ⟨_, rfl, by rw [if_pos finite]; rfl⟩

theorem array_roundTrip {α : Type} {write : α → Result Value} {read : Value → Result α}
    {decode : Value → Result RedisValue} {wrap : List α → RedisValue} {items : List α}
    (reads : ∀ written, decode (.Array written) = written.mapM read >>= fun items => .ok (wrap items))
    (apart : ∀ other, wrap other = wrap items → other = items) :
    (∃ fragment count, (items.mapM write >>= fun written => .ok (.Array written, written.length)) =
      (.ok (fragment, count) : Result (Value × Nat)) ∧ decode fragment = .ok (wrap items)) ↔
      ∀ item ∈ items, ∃ written, write item = .ok written ∧ read written = .ok item := by
  rw [← mapM_roundTrip_iff]
  constructor
  · rintro ⟨_, _, encoded, decoded⟩
    obtain ⟨written, done, ⟨⟩⟩ := bind_ok encoded
    rw [reads] at decoded
    obtain ⟨other, back, same⟩ := bind_ok decoded
    rw [apart other (Except.ok.inj same)] at back
    exact ⟨written, done, back⟩
  · rintro ⟨written, done, back⟩
    exact ⟨_, _, bind_ok_iff.mpr ⟨written, done, rfl⟩, by rw [reads]; exact bind_ok_iff.mpr ⟨items, back, rfl⟩⟩

theorem decodeHashPair_encodeHashPair (hex : HexLaw formats) {pair : Text × RedisValue} (member : Member pair.2) :
    (∃ written, encodeHashPair formats pair = .ok written ∧ decodeHashPair formats written = .ok pair) ↔ FiniteItem pair.2 := by
  have reads (written : Value) : decodeHashPair formats (.Array [.String pair.1, written]) =
      decodeItem formats written >>= fun item => .ok (pair.1, item) := rfl
  rw [← decodeItem_encodeItem hex member]
  constructor
  · rintro ⟨_, encoded, decoded⟩
    obtain ⟨written, done, ⟨⟩⟩ := bind_ok encoded
    rw [reads] at decoded
    obtain ⟨item, back, same⟩ := bind_ok decoded
    have own : item = pair.2 := congrArg Prod.snd (Except.ok.inj same)
    exact ⟨written, done, own ▸ back⟩
  · rintro ⟨written, done, back⟩
    exact ⟨_, bind_ok_iff.mpr ⟨written, done, rfl⟩, by rw [reads]; exact bind_ok_iff.mpr ⟨pair.2, back, rfl⟩⟩

theorem decodeZsetPair_encodeZsetPair (hex : HexLaw formats) {pair : RedisValue × F64} (member : Member pair.1) :
    (∃ written, encodeZsetPair formats pair = .ok written ∧ decodeZsetPair formats written = .ok pair) ↔
      FiniteItem pair.1 ∧ pair.2.isFinite = true := by
  have reads (written score : Value) : decodeZsetPair formats (.Array [written, score]) =
      invalidConfig "zset score 必须是数字" score.asF64 >>= fun score =>
        decodeItem formats written >>= fun item => .ok (item, score) := by
    rw [decodeZsetPair, show asPair (.Array [written, score]) = some (written, score) from rfl, invalidConfig]
    rfl
  rw [← decodeItem_encodeItem hex member]
  constructor
  · rintro ⟨_, encoded, decoded⟩
    obtain ⟨written, done, ⟨⟩⟩ := bind_ok encoded
    rw [reads, Value.asF64_ofF64] at decoded
    simp only [bind_ok_iff] at decoded
    obtain ⟨score, scored, item, back, same⟩ := decoded
    have own : item = pair.1 := congrArg Prod.fst (Except.ok.inj same)
    refine ⟨⟨written, done, own ▸ back⟩, ?_⟩
    by_contra infinite
    rw [if_neg infinite] at scored
    cases scored
  · rintro ⟨⟨written, done, back⟩, finite⟩
    refine ⟨_, bind_ok_iff.mpr ⟨written, done, rfl⟩, ?_⟩
    rw [reads, Value.asF64_ofF64, if_pos finite]
    exact bind_ok_iff.mpr ⟨pair.2, rfl, bind_ok_iff.mpr ⟨pair.1, back, rfl⟩⟩

theorem decodeStreamEntry_encodeStreamEntry (entry : StreamEntry) : decodeStreamEntry (encodeStreamEntry entry) = .ok entry := by
  have fields : (entry.fields.map fun field => Value.Array [.String field.1, .String field.2]).mapM decodeStreamField =
      .ok entry.fields := by
    rw [mapM_ok_iff, List.forall₂_map_left_iff, List.forall₂_same]
    intro field _
    rfl
  show (_ >>= fun fields => Except.ok (⟨entry.id, fields⟩ : StreamEntry)) = _
  rw [fields]
  rfl

/-- A fragment is decoded to the value that was encoded exactly when the value
    holds no score and no element that is an infinity or a NaN. -/
theorem decodeFragment_encodeFragment (hex : HexLaw formats) {kind : RedisType} {value : RedisValue} (scanned : Scanned kind value) :
    (∃ fragment count, encodeFragment formats value = .ok (fragment, count) ∧
      decodeFragment formats (some (kindName kind)) fragment = .ok value) ↔ FiniteValue value := by
  cases scanned with
  | text text => exact ⟨fun _ => trivial, fun _ => ⟨_, _, rfl, rfl⟩⟩
  | bytes bytes =>
    refine ⟨fun _ => trivial, fun _ => ⟨_, _, rfl, ?_⟩⟩
    show (decodeHex formats (formats.hexEncode bytes) >>= fun bytes => Except.ok (RedisValue.Bytes bytes)) = _
    rw [decodeHex_hexEncode hex]
    rfl
  | list members items =>
    refine (array_roundTrip (fun _ => rfl) fun other same => RedisValue.List.inj same).trans ?_
    exact forall₂_congr fun member inside => decodeItem_encodeItem hex (items member inside)
  | set members items =>
    refine (array_roundTrip (fun _ => rfl) fun other same => RedisValue.Set.inj same).trans ?_
    exact forall₂_congr fun member inside => decodeItem_encodeItem hex (items member inside)
  | hash pairs items =>
    refine (array_roundTrip (fun _ => rfl) fun other same => RedisValue.Hash.inj same).trans ?_
    exact forall₂_congr fun pair inside => decodeHashPair_encodeHashPair hex (items pair inside)
  | zset pairs items =>
    refine (array_roundTrip (fun _ => rfl) fun other same => RedisValue.ZSet.inj same).trans ?_
    exact forall₂_congr fun pair inside => decodeZsetPair_encodeZsetPair hex (items pair inside)
  | stream entries =>
    refine ⟨fun _ => trivial, fun _ => ⟨_, _, rfl, ?_⟩⟩
    have back : (entries.map encodeStreamEntry).mapM decodeStreamEntry = .ok entries := by
      rw [mapM_ok_iff, List.forall₂_map_left_iff, List.forall₂_same]
      exact fun entry _ => decodeStreamEntry_encodeStreamEntry entry
    show (_ >>= fun entries => Except.ok (RedisValue.Stream entries)) = _
    rw [back]
    rfl

end

def hexDigits (byte : UInt8) : Text := [Nat.digitChar (byte.toNat / 16), Nat.digitChar (byte.toNat % 16)]

def hexValue (c : Char) : Nat := if c.isDigit then c.toNat - 48 else c.toNat - 87

def hexBytes : Text → Except Text (List UInt8)
  | [] => .ok []
  | [_] => .error "Odd number of digits"
  | high :: low :: t => (hexBytes t).map (UInt8.ofNat (16 * hexValue high + hexValue low) :: ·)

/-- Lower-case hex digits, two for each byte. -/
def lowerHex : Formats := ⟨fun _ => [], fun bytes => bytes.flatMap hexDigits, hexBytes⟩

theorem lowerHex_law : HexLaw lowerHex := by
  intro bytes
  have digits : ∀ n < 16, hexValue (Nat.digitChar n) = n := by decide
  induction bytes with
  | nil => rfl
  | cons byte bytes ih =>
    have small := byte.toNat_lt
    have back : 16 * hexValue (Nat.digitChar (byte.toNat / 16)) + hexValue (Nat.digitChar (byte.toNat % 16)) =
        byte.toNat := by
      rw [digits _ (by omega), digits _ (by omega)]
      omega
    show (hexBytes (bytes.flatMap hexDigits)).map _ = _
    have rest : hexBytes (bytes.flatMap hexDigits) = .ok bytes := ih
    rw [rest, back]
    simp [Except.map]

/-- Members with the scores 1.5 and, in bytes, 0. -/
theorem decodeFragment_encodeFragment_scores :
    ∃ fragment count, encodeFragment lowerHex (.ZSet [(.Text ['m'], ⟨0x3FF8000000000000⟩), (.Bytes [0xFF], ⟨0⟩)]) = .ok (fragment, count) ∧
      decodeFragment lowerHex (some (kindName .ZSet)) fragment =
        .ok (.ZSet [(.Text ['m'], ⟨0x3FF8000000000000⟩), (.Bytes [0xFF], ⟨0⟩)]) := by
  refine (decodeFragment_encodeFragment lowerHex_law (.zset _ ?_)).mpr ?_
  · simp [Member.text, Member.bytes]
  · simp only [FiniteValue, List.forall_mem_cons, FiniteItem]
    exact ⟨⟨trivial, by decide⟩, ⟨trivial, by decide⟩, nofun⟩

/-- A member whose score is the positive infinity. -/
theorem decodeFragment_encodeFragment_infinity :
    ¬ ∃ fragment count, encodeFragment lowerHex (.ZSet [(.Text ['m'], F64.INFINITY)]) = .ok (fragment, count) ∧
      decodeFragment lowerHex (some (kindName .ZSet)) fragment = .ok (.ZSet [(.Text ['m'], F64.INFINITY)]) := by
  rintro ⟨_, _, ⟨⟩, decoded⟩
  cases decoded

end Ramag.FragmentCodec
