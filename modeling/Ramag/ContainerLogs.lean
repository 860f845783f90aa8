import Mathlib.Algebra.Order.Ring.Nat
import Ramag.Utf8Decoding

/-!
The log lines of a container. Its output comes in chunks of four streams. A log
that is followed keeps the unfinished line of each stream (`FollowLogAssembler`),
while a log that is read at once takes every chunk by itself (`appendLogOutput`).
-/
namespace Ramag.ContainerLogs
open Strings Domain ByteTexts Utf8Decoding

def MAX_CONTAINER_LOG_LINES : Nat := 5000
def MAX_CONTAINER_LOG_BYTES : Nat := 2 * 1024 * 1024

inductive DockerLogStream
  | Stdout
  | Stderr
  | Stdin
  | Console
  deriving DecidableEq

structure DockerContainerLogLine where
  stream : DockerLogStream
  message : Text
  deriving DecidableEq

structure DockerContainerLogs where
  lines : List DockerContainerLogLine := []
  bytes : Nat := 0
  droppedLines : Nat := 0
  truncated : Bool := false

/-- A chunk of one stream. -/
structure LogOutput where
  stream : DockerLogStream
  message : List UInt8

/-! ### A log that is followed -/

/-- The lines up to the last line feed, and the text behind it. -/
def drainLines : Text → List Text × Text
  | [] => ([], [])
  | c :: t =>
    let (lines, rest) := drainLines t
    if c = '\n' then ([] :: lines, rest)
    else
      match lines with
      | [] => ([], c :: rest)
      | line :: lines => ((c :: line) :: lines, rest)

def stripCr (message : Text) : Text := if message.getLast? = some '\r' then message.dropLast else message

variable (stream : DockerLogStream)

def followLogLine (message : Text) : DockerContainerLogLine := { stream, message := stripCr message }

def TRUNCATED : Text := "[持续日志行超过大小上限，已截断]"

/-- The unfinished line of each stream. -/
structure FollowLogAssembler where
  buffer : DockerLogStream → Text := fun _ => []

def FollowLogAssembler.append (assembler : FollowLogAssembler) (output : LogOutput) : List DockerContainerLogLine × FollowLogAssembler :=
  let (lines, rest) := drainLines (assembler.buffer output.stream ++ decodeLossy output.message)
  let lines := lines.map (followLogLine output.stream)
  if MAX_CONTAINER_LOG_BYTES < byteLen rest then
    (lines ++ [followLogLine output.stream TRUNCATED], { buffer := Function.update assembler.buffer output.stream [] })
  else (lines, { buffer := Function.update assembler.buffer output.stream rest })

def FollowLogAssembler.finish (assembler : FollowLogAssembler) : List DockerContainerLogLine :=
  ([DockerLogStream.Stdout, .Stderr, .Stdin, .Console].filter fun stream => !(assembler.buffer stream).isEmpty).map fun stream =>
    followLogLine stream (assembler.buffer stream)

/-- The lines that are emitted from here on. -/
def FollowLogAssembler.follow (assembler : FollowLogAssembler) : List LogOutput → List DockerContainerLogLine
  | [] => assembler.finish
  | output :: outputs => (assembler.append output).1 ++ (assembler.append output).2.follow outputs

variable (outputs : List LogOutput)

def followContainerLogStream : List DockerContainerLogLine := FollowLogAssembler.follow {} outputs

/-- The text behind the last line feed is a line of its own, unless it is empty. -/
def logOutputLines (output : LogOutput) : List DockerContainerLogLine :=
  let (lines, rest) := drainLines (decodeLossy output.message)
  (lines ++ if rest.isEmpty then [] else [rest]).map (followLogLine output.stream)

def keepLine (result : DockerContainerLogs) (line : DockerContainerLogLine) : DockerContainerLogs :=
  if MAX_CONTAINER_LOG_LINES ≤ result.lines.length ∨ MAX_CONTAINER_LOG_BYTES < result.bytes + byteLen line.message then
    { result with droppedLines := result.droppedLines + 1, truncated := true }
  else { result with lines := result.lines ++ [line], bytes := result.bytes + byteLen line.message }

def appendLogOutput (output : LogOutput) (result : DockerContainerLogs) : DockerContainerLogs :=
  (logOutputLines output).foldl keepLine result

def collectContainerLogStream : DockerContainerLogs :=
  outputs.foldl (fun result output => appendLogOutput output result) {}

def SENSITIVE_LOG_MARKERS : List Text :=
  ["password=", "password:", "\"password\"", "passwd=", "passwd:", "token=", "token:", "\"token\"", "access_token", "client_secret",
    "authorization", "bearer ", "-----begin "].map String.toList

def containsSensitiveLogMarker (message : Text) : Bool :=
  SENSITIVE_LOG_MARKERS.any fun marker => (findText marker (toAsciiLowercase message)).isSome

def redactContainerLogLine (line : DockerContainerLogLine) : DockerContainerLogLine :=
  if containsSensitiveLogMarker line.message then { line with message := "[日志行包含敏感信息，已隐藏]" } else line

def redactContainerLogs (logs : DockerContainerLogs) : DockerContainerLogs :=
  let lines := logs.lines.map redactContainerLogLine
  if logs.lines.any fun line => containsSensitiveLogMarker line.message then
    { logs with lines, bytes := (lines.map fun line => byteLen line.message).sum }
  else { logs with lines }

def chunksOf : List (List UInt8) :=
  (outputs.filter (·.stream = stream)).map LogOutput.message

/-- The whole text of a stream. -/
def textOf : Text := decodeLossy (chunksOf stream outputs).flatten

def messagesOf (lines : List DockerContainerLogLine) : List Text :=
  (lines.filter (·.stream = stream)).map DockerContainerLogLine.message

/-- What is behind the last line feed is a line too, if it is not empty. -/
def lastLine (rest : Text) : List Text := if rest.isEmpty then [] else [rest]

/-- The lines of a text; a carriage return at the end of a line belongs to its end. -/
def textLines (text : Text) : List Text := ((drainLines text).1 ++ lastLine (drainLines text).2).map stripCr

def limited (message : Text) : Text := if MAX_CONTAINER_LOG_BYTES < byteLen message then TRUNCATED else message

/-- The lines that are kept one after the other, where so many lines and bytes have room. -/
def kept : Nat → Nat → List DockerContainerLogLine → List DockerContainerLogLine
  | _, _, [] => []
  | lines, bytes, line :: rest =>
    if lines = 0 ∨ bytes < byteLen line.message then kept lines bytes rest
    else line :: kept (lines - 1) (bytes - byteLen line.message) rest

/-- `all` are the lines of the streams, of which the logs hold those that have room. -/
structure Holds (outputs : List LogOutput) (logs : DockerContainerLogs) (all : List DockerContainerLogLine) : Prop where
  whole : ∀ stream, messagesOf stream all = textLines (textOf stream outputs)
  lines : logs.lines = kept MAX_CONTAINER_LOG_LINES MAX_CONTAINER_LOG_BYTES all
  bytes : logs.bytes = (logs.lines.map fun line => byteLen line.message).sum
  dropped : logs.lines.length + logs.droppedLines = all.length
  hidden : (redactContainerLogs logs).lines = logs.lines.map redactContainerLogLine

/-- Both paths give the lines of the streams, whatever the chunks. -/
structure Independent (outputs : List LogOutput) : Prop where
  followed : ∀ stream, messagesOf stream (followContainerLogStream outputs) = (textLines (textOf stream outputs)).map limited
  hidden : ∀ stream, messagesOf stream ((followContainerLogStream outputs).map redactContainerLogLine) =
    ((textLines (textOf stream outputs)).map limited).map fun message => (redactContainerLogLine { stream, message }).message
  collected : ∃ all, Holds outputs (collectContainerLogStream outputs) all

/-- Chunks that are not the last of their stream end with a line. -/
def Ends : List (List UInt8) → Prop
  | [] => True
  | chunk :: chunks => (chunk = [] ∨ chunk.getLast? = some 10 ∨ chunks.flatten = []) ∧ Ends chunks

/-- Chunks end with their lines, no line that ends is too long, and no last line is too long by its
carriage return alone. -/
structure Aligned (outputs : List LogOutput) : Prop where
  ends : ∀ stream, Ends (chunksOf stream outputs)
  short : ∀ stream, ∀ line ∈ (drainLines (textOf stream outputs)).1, byteLen (stripCr line) ≤ MAX_CONTAINER_LOG_BYTES
  apart : ∀ stream, ¬((drainLines (textOf stream outputs)).2.getLast? = some '\r' ∧
    byteLen (drainLines (textOf stream outputs)).2 = MAX_CONTAINER_LOG_BYTES + 1)

/-! ### When the lines do not depend on the chunks -/

open List

variable {t line : Text} {bytes chunk : List UInt8} {chunks : List (List UInt8)} {stream : DockerLogStream}

theorem drain_plain (plain : '\n' ∉ t) : drainLines t = ([], t) := by
  induction t with
  | nil => rfl
  | cons c t ih =>
    simp only [mem_cons, not_or] at plain
    simp [drainLines, ih plain.2, Ne.symm plain.1]

theorem drain_line (plain : '\n' ∉ line) (t : Text) : drainLines (line ++ '\n' :: t) = (line :: (drainLines t).1, (drainLines t).2) := by
  induction line with
  | nil => simp [drainLines]
  | cons c line ih =>
    simp only [mem_cons, not_or] at plain
    simp [drainLines, ih plain.2, Ne.symm plain.1]

theorem rest_plain (t : Text) : '\n' ∉ (drainLines t).2 := by
  induction t with
  | nil => exact not_mem_nil
  | cons c t ih =>
    rw [drainLines]
    dsimp only
    split_ifs with ends
    · exact ih
    · cases (drainLines t).1 <;> simp [Ne.symm ends, ih]

theorem decode_line (plain : (10 : UInt8) ∉ bytes) : '\n' ∉ decodeLossy bytes :=
  fun mem => plain (mem_of_mem_decodeLossy (by decide) mem)

theorem decode_cut (front back : List UInt8) : decodeLossy (front ++ 10 :: back) = decodeLossy front ++ '\n' :: decodeLossy back :=
  decodeLossy_ascii (show '\n'.toNat < 128 by decide) front back

@[simp] theorem decodeLossy_nil : decodeLossy [] = [] := by simp [decodeLossy]

theorem decodeLossy_eq_nil (bytes : List UInt8) : decodeLossy bytes = [] ↔ bytes = [] := by
  cases bytes with
  | nil => simp
  | cons b bytes =>
    rw [decodeLossy]
    split <;> simp

/-- One line after the other. -/
theorem lines_induction {motive : List UInt8 → Prop} (last : ∀ bytes, (10 : UInt8) ∉ bytes → motive bytes)
    (line : ∀ front back, (10 : UInt8) ∉ front → motive back → motive (front ++ 10 :: back)) (bytes : List UInt8) : motive bytes := by
  induction size : bytes.length using Nat.strong_induction_on generalizing bytes with
  | _ n ih =>
    by_cases mem : (10 : UInt8) ∈ bytes
    · obtain ⟨front, back, rfl, plain⟩ := eq_append_cons_of_mem mem
      exact line front back plain (ih back.length (by simp at size; omega) back rfl)
    · exact last bytes mem

theorem drain_front {front back : List UInt8} (plain : (10 : UInt8) ∉ front) : drainLines (decodeLossy (front ++ 10 :: back)) =
    (decodeLossy front :: (drainLines (decodeLossy back)).1, (drainLines (decodeLossy back)).2) := by
  rw [decode_cut, drain_line (decode_line plain)]

/-- Chunks that end with a line are drained apart. -/
theorem drain_ended (ended : bytes = [] ∨ bytes.getLast? = some 10) (back : List UInt8) : drainLines (decodeLossy (bytes ++ back)) =
    ((drainLines (decodeLossy bytes)).1 ++ (drainLines (decodeLossy back)).1, (drainLines (decodeLossy back)).2) ∧
    (drainLines (decodeLossy bytes)).2 = [] := by
  induction bytes using lines_induction with
  | last bytes plain =>
    rcases ended with rfl | ends
    · simp [drainLines]
    · exact absurd (mem_of_getLast? ends) plain
  | line front bytes plain ih =>
    have ended' : bytes = [] ∨ bytes.getLast? = some 10 := by
      cases bytes with
      | nil => exact .inl rfl
      | cons b bytes => simpa using ended
    obtain ⟨drained, rest⟩ := ih ended'
    rw [append_assoc, cons_append, drain_front plain, drain_front plain, drained]
    exact ⟨rfl, rest⟩

def followOne (buffer : Text) : List (List UInt8) → List Text
  | [] => (lastLine buffer).map stripCr
  | chunk :: chunks =>
    let (lines, rest) := drainLines (buffer ++ decodeLossy chunk)
    lines.map stripCr ++ if MAX_CONTAINER_LOG_BYTES < byteLen rest then TRUNCATED :: followOne [] chunks else followOne rest chunks

theorem messagesOf_append (stream : DockerLogStream) (front back : List DockerContainerLogLine) :
    messagesOf stream (front ++ back) = messagesOf stream front ++ messagesOf stream back := by simp [messagesOf]

theorem messagesOf_lines (stream : DockerLogStream) (lines : List Text) :
    messagesOf stream (lines.map (followLogLine stream)) = lines.map stripCr := by
  simp [messagesOf, filter_map, Function.comp_def, followLogLine]

theorem messagesOf_others {other : DockerLogStream} (apart : other ≠ stream) (lines : List Text) :
    messagesOf stream (lines.map (followLogLine other)) = [] := by
  simp [messagesOf, followLogLine, apart]

theorem messagesOf_notice (stream : DockerLogStream) : messagesOf stream [followLogLine stream TRUNCATED] = [TRUNCATED] :=
  messagesOf_lines stream [TRUNCATED]

theorem messagesOf_finish (assembler : FollowLogAssembler) (stream : DockerLogStream) :
    messagesOf stream assembler.finish = (lastLine (assembler.buffer stream)).map stripCr := by
  simp only [FollowLogAssembler.finish, messagesOf, filter_map, filter_filter, lastLine]
  cases stream <;> simp [Function.comp_def, followLogLine, filter_cons] <;> split <;> simp_all

theorem follow_one (assembler : FollowLogAssembler) (outputs : List LogOutput) (stream : DockerLogStream) :
    messagesOf stream (assembler.follow outputs) = followOne (assembler.buffer stream) (chunksOf stream outputs) := by
  induction outputs generalizing assembler with
  | nil => exact messagesOf_finish assembler stream
  | cons output outputs ih =>
    rw [FollowLogAssembler.follow, messagesOf_append, ih, FollowLogAssembler.append]
    by_cases here : output.stream = stream
    · subst here
      have chunks : chunksOf output.stream (output :: outputs) = output.message :: chunksOf output.stream outputs := by simp [chunksOf]
      rw [chunks, followOne]
      dsimp only
      split_ifs <;> simp [messagesOf_append, messagesOf_lines, messagesOf_notice]
    · have chunks : chunksOf stream (output :: outputs) = chunksOf stream outputs := by simp [chunksOf, here]
      have notice := messagesOf_others here [TRUNCATED]
      rw [map_singleton] at notice
      rw [chunks]
      dsimp only
      split_ifs <;> simp [messagesOf_append, messagesOf_others here, notice, Ne.symm here]

/-- What is emitted of the text behind the last line feed. -/
def unfinished (rest : Text) : List Text := if MAX_CONTAINER_LOG_BYTES < byteLen rest then [TRUNCATED] else (lastLine rest).map stripCr

theorem followOne_empty {buffer : Text} (plain : '\n' ∉ buffer) (small : byteLen buffer ≤ MAX_CONTAINER_LOG_BYTES)
    (empty : chunks.flatten = []) : followOne buffer chunks = (lastLine buffer).map stripCr := by
  induction chunks with
  | nil => rfl
  | cons chunk chunks ih =>
    simp only [flatten_cons, append_eq_nil_iff] at empty
    rw [followOne, empty.1, decodeLossy_nil, append_nil, drain_plain plain]
    simp [ih empty.2, Nat.not_lt.mpr small]

theorem followOne_ends (ends : Ends chunks) : followOne [] chunks =
    (drainLines (decodeLossy chunks.flatten)).1.map stripCr ++ unfinished (drainLines (decodeLossy chunks.flatten)).2 := by
  induction chunks with
  | nil => simp [followOne, drainLines, unfinished]
  | cons chunk chunks ih =>
    obtain ⟨ended, later⟩ := ends
    rw [followOne, flatten_cons, nil_append]
    dsimp only
    rcases or_assoc.mpr ended with ended | empty
    · obtain ⟨drained, rest⟩ := drain_ended ended chunks.flatten
      simp [drained, rest, ih later]
    rw [empty, append_nil, unfinished]
    split_ifs with long
    · rw [followOne_empty not_mem_nil (Nat.zero_le _) empty]
      rfl
    · rw [followOne_empty (rest_plain _) (Nat.not_lt.mp long) empty]

theorem byteLen_truncated : byteLen TRUNCATED < MAX_CONTAINER_LOG_BYTES := by decide

theorem limited_eq (message : Text) : limited message = message ↔ byteLen message ≤ MAX_CONTAINER_LOG_BYTES := by
  rw [limited]
  split_ifs with long
  · refine ⟨fun same => ?_, fun small => absurd long (Nat.not_lt.mpr small)⟩
    have := byteLen_truncated
    rw [← same] at long
    omega
  · exact ⟨fun _ => Nat.not_lt.mp long, fun _ => rfl⟩

theorem byteLen_stripCr (message : Text) : byteLen message = byteLen (stripCr message) + if message.getLast? = some '\r' then 1 else 0 := by
  rw [stripCr]
  split_ifs with ends
  · obtain ⟨front, rfl⟩ := getLast?_eq_some_iff.mp ends
    rw [dropLast_concat, byteLen_append]
    rfl
  · rfl

theorem limited_notice {message : Text} (full : MAX_CONTAINER_LOG_BYTES ≤ byteLen message) :
    TRUNCATED = limited message ↔ MAX_CONTAINER_LOG_BYTES < byteLen message := by
  have := byteLen_truncated
  rw [limited]
  split_ifs with long
  · exact iff_of_true rfl long
  · refine iff_of_false (fun same => ?_) long
    rw [← same] at full
    omega

theorem unfinished_eq (rest : Text) : unfinished rest = ((lastLine rest).map stripCr).map limited ↔
    ¬(rest.getLast? = some '\r' ∧ byteLen rest = MAX_CONTAINER_LOG_BYTES + 1) := by
  have length := byteLen_stripCr rest
  rw [unfinished]
  by_cases long : MAX_CONTAINER_LOG_BYTES < byteLen rest
  · have written : lastLine rest = [rest] := by
      cases rest with
      | nil => exact absurd long (Nat.not_lt_zero _)
      | cons c t => rfl
    have full : MAX_CONTAINER_LOG_BYTES ≤ byteLen (stripCr rest) := by split at length <;> omega
    rw [if_pos long, written, map_singleton, map_singleton, singleton_inj, limited_notice full]
    split_ifs at length with ends
    · simp only [ends, true_and]
      omega
    · simp only [ends, false_and, not_false_iff, iff_true]
      omega
  · have small : limited (stripCr rest) = stripCr rest := (limited_eq _).mpr (by omega)
    rw [if_neg long, lastLine]
    refine iff_of_true ?_ fun both => long (by omega)
    split_ifs <;> simp [small]

theorem followed_iff (outputs : List LogOutput) (stream : DockerLogStream) (ends : Ends (chunksOf stream outputs)) :
    messagesOf stream (followContainerLogStream outputs) = (textLines (textOf stream outputs)).map limited ↔
      (∀ line ∈ (drainLines (textOf stream outputs)).1, byteLen (stripCr line) ≤ MAX_CONTAINER_LOG_BYTES) ∧
      ¬((drainLines (textOf stream outputs)).2.getLast? = some '\r' ∧
        byteLen (drainLines (textOf stream outputs)).2 = MAX_CONTAINER_LOG_BYTES + 1) := by
  have emitted : messagesOf stream (followContainerLogStream outputs) =
      (drainLines (textOf stream outputs)).1.map stripCr ++ unfinished (drainLines (textOf stream outputs)).2 :=
    (follow_one {} outputs stream).trans (followOne_ends ends)
  rw [emitted, textLines, map_append, map_append, ← unfinished_eq]
  have front : (drainLines (textOf stream outputs)).1.map stripCr = ((drainLines (textOf stream outputs)).1.map stripCr).map limited ↔
      ∀ line ∈ (drainLines (textOf stream outputs)).1, byteLen (stripCr line) ≤ MAX_CONTAINER_LOG_BYTES := by
    rw [eq_comm, map_map, map_inj_left]
    simp [limited_eq]
  rw [← front]
  refine ⟨fun same => append_inj same (by simp), fun both => ?_⟩
  rw [← both.1, ← both.2]

/-! ### A log that is read at once -/

theorem foldl_keepLine (all : List DockerContainerLogLine) (result : DockerContainerLogs) (room : result.bytes ≤ MAX_CONTAINER_LOG_BYTES)
    (bytes : result.bytes = (result.lines.map fun line => byteLen line.message).sum) : (all.foldl keepLine result).lines = result.lines ++
      kept (MAX_CONTAINER_LOG_LINES - result.lines.length) (MAX_CONTAINER_LOG_BYTES - result.bytes) all ∧
    (all.foldl keepLine result).bytes = ((all.foldl keepLine result).lines.map fun line => byteLen line.message).sum ∧
    (all.foldl keepLine result).lines.length + (all.foldl keepLine result).droppedLines =
      result.lines.length + result.droppedLines + all.length := by
  induction all generalizing result with
  | nil => exact ⟨(append_nil _).symm, bytes, rfl⟩
  | cons line all ih =>
    rw [foldl_cons, keepLine, kept]
    split_ifs with full out out
    · obtain ⟨lines, total, count⟩ := ih { result with droppedLines := result.droppedLines + 1, truncated := true } room bytes
      refine ⟨lines, total, ?_⟩
      simp only [count, length_cons]
      omega
    · omega
    · omega
    · obtain ⟨lines, total, count⟩ := ih { result with lines := result.lines ++ [line], bytes := result.bytes + byteLen line.message }
        (by dsimp only; omega) (by simp [bytes])
      refine ⟨?_, total, ?_⟩
      · simp [lines, Nat.sub_sub]
      · rw [count]
        simp
        omega

theorem messagesOf_outputs (stream : DockerLogStream) (outputs : List LogOutput) :
    messagesOf stream (outputs.flatMap logOutputLines) = (chunksOf stream outputs).flatMap fun chunk => textLines (decodeLossy chunk) := by
  induction outputs with
  | nil => rfl
  | cons output outputs ih =>
    rw [flatMap_cons, messagesOf_append, ih, logOutputLines]
    by_cases here : output.stream = stream
    · subst here
      rw [messagesOf_lines]
      simp [chunksOf, textLines, lastLine]
    · simp [messagesOf_others here, chunksOf, here, -map_append]

theorem textLines_nil : textLines (decodeLossy []) = [] := by simp [textLines, drainLines, lastLine]

theorem lines_of_ends (ends : Ends chunks) :
    (chunks.flatMap fun chunk => textLines (decodeLossy chunk)) = textLines (decodeLossy chunks.flatten) := by
  induction chunks with
  | nil => exact textLines_nil.symm
  | cons chunk chunks ih =>
    obtain ⟨ended, later⟩ := ends
    rw [flatMap_cons, ih later, flatten_cons]
    rcases or_assoc.mpr ended with ended | empty
    · obtain ⟨drained, rest⟩ := drain_ended ended chunks.flatten
      simp [textLines, drained, rest, lastLine]
    · rw [empty, textLines_nil, append_nil, append_nil]

theorem length_lines (bytes : List UInt8) :
    (textLines (decodeLossy bytes)).length = bytes.count 10 + if bytes = [] ∨ bytes.getLast? = some 10 then 0 else 1 := by
  induction bytes using lines_induction with
  | last bytes plain =>
    have apart : bytes.getLast? ≠ some 10 := fun ends => plain (mem_of_getLast? ends)
    have count := count_eq_zero.mpr plain
    simp [textLines, drain_plain (decode_line plain), lastLine, decodeLossy_eq_nil, count, apart, apply_ite List.length]
  | line front back plain ih =>
    have ended : (front ++ 10 :: back = [] ∨ (front ++ 10 :: back).getLast? = some 10) ↔ back = [] ∨ back.getLast? = some 10 := by
      cases back <;> simp
    have count : (textLines (decodeLossy (front ++ 10 :: back))).length = (textLines (decodeLossy back)).length + 1 := by
      simp [textLines, drain_front plain]
    simp only [count, ih, ended, count_append, count_cons_self, count_eq_zero.mpr plain]
    omega

/-- A cut inside a line makes a line more. -/
theorem length_cut (front back : List UInt8) :
    (textLines (decodeLossy (front ++ back))).length + (if front = [] ∨ front.getLast? = some 10 ∨ back = [] then 0 else 1) =
      (textLines (decodeLossy front)).length + (textLines (decodeLossy back)).length := by
  simp only [length_lines, count_append]
  cases back with
  | nil => simp
  | cons b back =>
    have last : (front ++ b :: back).getLast? = (b :: back).getLast? := getLast?_append_of_ne_nil front (cons_ne_nil b back)
    simp only [last, append_eq_nil_iff, reduceCtorEq, and_false, or_false, false_or]
    omega

theorem length_chunks (chunks : List (List UInt8)) :
    (textLines (decodeLossy chunks.flatten)).length ≤ (chunks.flatMap fun chunk => textLines (decodeLossy chunk)).length ∧
    ((textLines (decodeLossy chunks.flatten)).length = (chunks.flatMap fun chunk => textLines (decodeLossy chunk)).length →
      Ends chunks) := by
  induction chunks with
  | nil => exact ⟨Nat.le_of_eq (congrArg _ textLines_nil), fun _ => trivial⟩
  | cons chunk chunks ih =>
    obtain ⟨fewer, ends⟩ := ih
    have cut := length_cut chunk chunks.flatten
    rw [flatten_cons, flatMap_cons, length_append]
    split_ifs at cut with ended
    · exact ⟨by omega, fun same => ⟨ended, ends (by omega)⟩⟩
    · exact ⟨by omega, fun same => by omega⟩

theorem length_streams (all : List DockerContainerLogLine) : all.length = (messagesOf .Stdout all).length +
    (messagesOf .Stderr all).length + (messagesOf .Stdin all).length + (messagesOf .Console all).length := by
  induction all with
  | nil => rfl
  | cons line all ih =>
    rcases line with ⟨stream, message⟩
    cases stream <;> simp [messagesOf] at * <;> omega

theorem collected_iff (outputs : List LogOutput) :
    (∃ all, Holds outputs (collectContainerLogStream outputs) all) ↔ ∀ stream, Ends (chunksOf stream outputs) := by
  have collected : collectContainerLogStream outputs = (outputs.flatMap logOutputLines).foldl keepLine {} := by
    rw [foldl_flatMap]
    rfl
  obtain ⟨lines, bytes, dropped⟩ := foldl_keepLine (outputs.flatMap logOutputLines) {} (Nat.zero_le _) rfl
  rw [collected]
  constructor
  · rintro ⟨all, holds⟩ stream
    have same := holds.dropped.symm.trans dropped
    simp only [length_streams, holds.whole, messagesOf_outputs, textOf, length_nil, Nat.zero_add] at same
    have fewer := fun stream => (length_chunks (chunksOf stream outputs)).1
    have out := fewer .Stdout
    have err := fewer .Stderr
    have inp := fewer .Stdin
    have con := fewer .Console
    apply (length_chunks (chunksOf stream outputs)).2
    cases stream <;> omega
  · refine fun ends => ⟨outputs.flatMap logOutputLines, fun stream => ?_, lines, bytes, by simpa using dropped, ?_⟩
    · rw [messagesOf_outputs, lines_of_ends (ends stream), textOf]
    · rw [redactContainerLogs]
      split_ifs <;> rfl

theorem messagesOf_redacted (stream : DockerLogStream) (lines : List DockerContainerLogLine) :
    messagesOf stream (lines.map redactContainerLogLine) =
      (messagesOf stream lines).map fun message => (redactContainerLogLine { stream, message }).message := by
  induction lines with
  | nil => rfl
  | cons line lines ih =>
    have same : (redactContainerLogLine line).stream = line.stream := by
      rw [redactContainerLogLine]
      split_ifs <;> rfl
    by_cases here : line.stream = stream
    · subst here
      simp_all [messagesOf]
    · simp_all [messagesOf]

theorem independent_iff (outputs : List LogOutput) : Independent outputs ↔ Aligned outputs := by
  constructor
  · intro independent
    have ends := (collected_iff outputs).mp independent.collected
    have both := fun stream => (followed_iff outputs stream (ends stream)).mp (independent.followed stream)
    exact ⟨ends, fun stream => (both stream).1, fun stream => (both stream).2⟩
  intro aligned
  have followed := fun stream => (followed_iff outputs stream (aligned.ends stream)).mpr ⟨aligned.short stream, aligned.apart stream⟩
  refine ⟨followed, fun stream => ?_, (collected_iff outputs).mpr aligned.ends⟩
  rw [messagesOf_redacted, followed]

/-- `pass` and `word=hunter2` are two lines, and neither of them is hidden. -/
theorem marker_cut : ¬Independent [⟨.Stdout, asBytes "pass"⟩, ⟨.Stdout, asBytes "word=hunter2\n"⟩] ∧
    (redactContainerLogs (collectContainerLogStream [⟨.Stdout, asBytes "pass"⟩, ⟨.Stdout, asBytes "word=hunter2\n"⟩])).lines =
      [⟨.Stdout, "pass"⟩, ⟨.Stdout, "word=hunter2"⟩] := by
  constructor
  · intro independent
    have ends := (collected_iff _).mp independent.collected .Stdout
    exact absurd ends.1 (by decide)
  · simp only [collectContainerLogStream, foldl_cons, foldl_nil, appendLogOutput, logOutputLines, decodeLossy_asBytes]
    decide

end Ramag.ContainerLogs
