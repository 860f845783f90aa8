import Ramag.ByteTexts
import Ramag.Programs
import Ramag.RedisFragment

/-!
The commands that write the elements of a collection to a Redis key. The state
of a write is the list of the commands that were sent.
-/
namespace Ramag.RedisWrites
open Strings ByteTexts Domain Json RedisFragment Programs List

def MAX_REDIS_COMMAND_ARG_BYTES : Nat := 4 * 1024 * 1024
def WRITE_CHUNK_MEMBERS : Nat := TRANSFER_BATCH_ITEMS
def WRITE_CHUNK_BYTES : Nat := TRANSFER_BATCH_BYTES

/-- The arguments of one element. -/
abbrev Element := List (List UInt8)

/-- A command for a key, with the arguments of its elements. -/
structure Cmd where
  command : Text
  key : Text
  elements : List Element

def payload (element : Element) : Nat := (element.map length).sum

def ensureMemberSize (bytes : Nat) : Result Unit :=
  if bytes > MAX_REDIS_COMMAND_ARG_BYTES then
    .error (.InvalidConfig ("Redis 成员超过 " ++ natText (MAX_REDIS_COMMAND_ARG_BYTES / 1024 / 1024) ++ " MiB 上限，无法写入"))
  else .ok ()

section
variable (formats : Formats)

def memberArg : RedisValue → Result (List UInt8)
  | .Text text => .ok (asBytes text)
  | .Bytes bytes => .ok bytes
  | .Int number => .ok (asBytes (i64Text number))
  | .Float number => .ok (asBytes (formats.f64Text number))
  | other => .error (.InvalidConfig ("该成员类型不支持导入写入：" ++ displayPreview formats 32 other))

def formatScore (score : F64) : Result Text :=
  if !score.isFinite && score.bits &&& 0xFFFFFFFFFFFFF != 0 then .error (.InvalidConfig "ZSet score 不能是 NaN")
  else if score = .INFINITY then .ok "+inf"
  else if score.bits = 0xFFF0000000000000 then .ok "-inf"
  else .ok (formats.f64Text score)

def memberElement (member : RedisValue) : Result Element := do
  let arg ← memberArg formats member
  ensureMemberSize arg.length
  .ok [arg]

def hashElement (pair : Text × RedisValue) : Result Element := do
  let arg ← memberArg formats pair.2
  ensureMemberSize (byteLen pair.1)
  ensureMemberSize arg.length
  .ok [asBytes pair.1, arg]

def zsetElement (pair : RedisValue × F64) : Result Element := do
  let arg ← memberArg formats pair.1
  ensureMemberSize arg.length
  let scoreText ← formatScore formats pair.2
  .ok [asBytes scoreText, arg]

end

section
variable {α : Type} (query : List Cmd → Cmd → Result Unit)

/-- `query` is what the server answers after the commands before. -/
def flush (cmd : Cmd) : Prog (List Cmd) DomainError Unit := do
  let sent ← Prog.get
  Prog.modify (· ++ [cmd])
  Prog.lift (query sent cmd)

/-- The loop of the three writes; `pending` are the elements of the open command. -/
def writeLoop (element : α → Result Element) (command key : Text) : List α → List Element → Nat → Prog (List Cmd) DomainError Nat
  | [], pending, written => do
    if pending ≠ [] then flush query ⟨command, key, pending⟩
    pure written
  | item :: items, pending, written => do
    let args ← Prog.lift (element item)
    if pending ≠ [] ∧ (pending.length ≥ WRITE_CHUNK_MEMBERS ∨
        (pending.map payload).sum + payload args > WRITE_CHUNK_BYTES) then do
      flush query ⟨command, key, pending⟩
      writeLoop element command key items [args] (written + 1)
    else writeLoop element command key items (pending ++ [args]) (written + 1)

variable (formats : Formats)

def writeMembers (key command : Text) (members : List RedisValue) : Prog (List Cmd) DomainError Nat :=
  writeLoop query (memberElement formats) command key members [] 0

def writeHash (key : Text) (pairs : List (Text × RedisValue)) : Prog (List Cmd) DomainError Nat :=
  writeLoop query (hashElement formats) "HSET" key pairs [] 0

def writeZset (key : Text) (pairs : List (RedisValue × F64)) : Prog (List Cmd) DomainError Nat :=
  writeLoop query (zsetElement formats) "ZADD" key pairs [] 0

end

/-- Elements that one command may carry. -/
def Chunk (elements : List Element) : Prop :=
  elements ≠ [] ∧ elements.length ≤ WRITE_CHUNK_MEMBERS ∧ ((elements.map payload).sum ≤ WRITE_CHUNK_BYTES ∨ elements.length = 1)

section
variable {α : Type} (element : α → Result Element) (command key : Text) (start : List Cmd)

/-- The commands that were sent, and the elements that wait, carry the items. -/
def Carries (items : List α) (pending : List Element) (sent : List Cmd) : Prop :=
  ∃ chunks : List (List Element), sent = start ++ chunks.map (Cmd.mk command key) ∧ (∀ chunk ∈ chunks, Chunk chunk) ∧
    items.mapM element = .ok (chunks.flatten ++ pending)

/-- All of the items are carried, or the first ones of them when the write fails. -/
def Written (items : List α) (outcome : Outcome DomainError Nat) (sent : List Cmd) : Prop :=
  match outcome with
  | .ok written => written = items.length ∧ Carries element command key start items [] sent
  | _ => ∃ done pending, done <+: items ∧ Carries element command key start done pending sent

end

section
variable {α : Type} {query : List Cmd → Cmd → Result Unit} {element : α → Result Element}
variable {command key : Text} {start : List Cmd}

theorem flush_carries {items more : List α} {pending : List Element} (chunk : Chunk pending) :
    Triple (Carries element command key start items pending) (flush query ⟨command, key, pending⟩)
      (fun _ => Carries element command key start items [])
      fun s => ∃ front pending, front <+: items ++ more ∧ Carries element command key start front pending s := by
  refine .getThen fun sent => .bind (.modify fun s ⟨_, chunks, whole, each, encoded⟩ => ?_) fun _ =>
    .lift (fun _ _ _ => id) fun _ carries => ⟨items, [], prefix_append _ _, carries⟩
  refine ⟨chunks ++ [pending], ?_, forall_mem_append.mpr ⟨each, forall_mem_singleton.mpr chunk⟩, by simpa using encoded⟩
  rw [whole, map_append, append_assoc]
  rfl

theorem Carries.snoc {items : List α} {pending : List Element} {sent : List Cmd} {item : α} {args : Element}
    (carries : Carries element command key start items pending sent) (given : element item = .ok args) :
    Carries element command key start (items ++ [item]) (pending ++ [args]) sent := by
  obtain ⟨chunks, whole, each, encoded⟩ := carries
  refine ⟨chunks, whole, each, ?_⟩
  rw [mapM_append, encoded, mapM_cons, given, ← append_assoc]
  rfl

theorem chunk_single (args : Element) : Chunk [args] := ⟨cons_ne_nil _ _, Nat.succ_pos _, .inr rfl⟩

theorem chunk_snoc {pending : List Element} {args : Element} (opened : pending = [] ∨ Chunk pending)
    (room : ¬ (pending ≠ [] ∧ (pending.length ≥ WRITE_CHUNK_MEMBERS ∨
      (pending.map payload).sum + payload args > WRITE_CHUNK_BYTES))) : Chunk (pending ++ [args]) := by
  rcases opened with rfl | ⟨some, -, -⟩
  · exact chunk_single args
  · obtain ⟨few, light⟩ := not_or.mp (not_and.mp room some)
    refine ⟨by simp, ?_, .inl ?_⟩
    · rw [length_append, length_singleton]
      omega
    · rw [map_append, sum_append, map_singleton, sum_singleton]
      omega

theorem writeLoop_carries (items done : List α) (pending : List Element) (opened : pending = [] ∨ Chunk pending) :
    Triple (Carries element command key start done pending) (writeLoop query element command key items pending done.length)
      (fun written s => written = (done ++ items).length ∧ Carries element command key start (done ++ items) [] s)
      fun s => ∃ front pending, front <+: done ++ items ∧ Carries element command key start front pending s := by
  induction items generalizing done pending with
  | nil =>
    refine .ite (fun some => .bind (flush_carries (opened.resolve_left some)) fun _ => .ret fun _ carries => ?_) fun none =>
      .ret fun _ carries => ?_
    · rw [append_nil]
      exact ⟨rfl, carries⟩
    · rw [append_nil]
      exact ⟨rfl, not_not.mp none ▸ carries⟩
  | cons item items ih =>
    refine .bind (.lift_same fun s carries => ⟨done, pending, prefix_append _ _, carries⟩) fun args => .given fun given => ?_
    have next (pending : List Element) (chunk : Chunk (pending ++ [args])) :
        Triple (Carries element command key start done pending)
          (writeLoop query element command key items (pending ++ [args]) (done.length + 1))
          (fun written s => written = (done ++ item :: items).length ∧ Carries element command key start (done ++ item :: items) [] s)
          fun s => ∃ front pending, front <+: done ++ item :: items ∧ Carries element command key start front pending s := by
      have rest := ih (done ++ [item]) (pending ++ [args]) (.inr chunk)
      rw [length_append, length_singleton, append_assoc, singleton_append] at rest
      exact .enter rest (fun s carries => carries.snoc given)
    exact .ite (fun full => .bind (flush_carries (opened.resolve_left full.1)) fun _ => next [] (chunk_single args)) fun room =>
      next pending (chunk_snoc opened room)

theorem writeLoop_written (items : List α) : Written element command key start items
    (writeLoop query element command key items [] 0 start).1 (writeLoop query element command key items [] 0 start).2 := by
  have run := @writeLoop_carries α query element command key start items [] [] (.inl rfl) start ⟨[], by simp, nofun, rfl⟩
  unfold Written
  revert run
  rcases writeLoop query element command key items [] 0 start with ⟨_ | _ | _, _⟩
  · exact id
  · exact id
  · exact id

end

/-- Each of the three writes carries its elements in their order, in commands
    within the limits, and none of them is empty. -/
theorem redis_writes (formats : Formats) (query : List Cmd → Cmd → Result Unit) (key command : Text)
    (members : List RedisValue) (pairs : List (Text × RedisValue)) (scored : List (RedisValue × F64)) (start : List Cmd) :
    Written (memberElement formats) command key start members
      (writeMembers query formats key command members start).1 (writeMembers query formats key command members start).2 ∧
    Written (hashElement formats) "HSET" key start pairs
      (writeHash query formats key pairs start).1 (writeHash query formats key pairs start).2 ∧
    Written (zsetElement formats) "ZADD" key start scored
      (writeZset query formats key scored start).1 (writeZset query formats key scored start).2 :=
  ⟨writeLoop_written members, writeLoop_written pairs, writeLoop_written scored⟩

end Ramag.RedisWrites
