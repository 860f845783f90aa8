import Ramag.ConnectionRepo
import Ramag.Runs

/-!
The SSH tunnels: one slot for each connection, found through a registry, and at
most one `ssh` process for each slot. `ensure`, `evict` and `shutdown_all` run
side by side; each section under a lock and each operation on a process is one
step. A slot is locked while a call stands at a step that has its lock.
-/
namespace Ramag.SshTunnels
open Strings Domain Uuids ConnectionRepo

def MAX_ACTIVE_TUNNELS : Nat := 64

structure Tunnel where
  /-- The place of the process in `TunnelState.processes`. -/
  child : Nat
  localPort : Fin (2 ^ 16)
  fingerprint : Text

variable (config : ConnectionConfig)

/-- The target that a tunnel goes through; without one there is none. -/
def targetOf : Option Text := (config.sshTarget.map trim).filter (· ≠ [])

def fingerprint : Text :=
  config.sshTarget.getD [] ++ '|' :: (natText (config.sshPort.getD 22).val ++ '|' :: (config.host ++ ':' :: natText config.port.val))

/-- The command line of `build_tunnel`. -/
def sshArguments (localPort : Fin (2 ^ 16)) : List Text :=
  ["-N".toList, "-L".toList, "127.0.0.1:".toList ++ natText localPort.val ++ ':' :: (config.host ++ ':' :: natText config.port.val),
    "-o", "BatchMode=yes", "-o", "ExitOnForwardFailure=yes",
    "-o", "ServerAliveInterval=15", "-o", "ConnectTimeout=10"] ++
  (match config.sshPort.filter (· ≠ 22) with
    | some port => ["-p".toList, natText port.val]
    | none => []) ++
  ["--".toList, (targetOf config).getD []]

/-! ### Processes and calls -/

/-- An `ssh` process, with the configuration and the slot that it was started for. -/
structure Process where
  config : ConnectionConfig
  slot : Nat
  arguments : List Text
  running : Bool

/-- What a call is about to do. -/
inductive Call
  /-- The checks of `ensure` and `slot_for`. -/
  | ensuring (config : ConnectionConfig)
  /-- The lock of the slot, and the look at its tunnel. -/
  | fetched (config : ConnectionConfig) (slot : Nat)
  /-- The stop of a tunnel that cannot be used again. -/
  | replacing (config : ConnectionConfig) (slot : Nat) (stale : Tunnel)
  /-- `build_tunnel` up to the start of the process. -/
  | building (config : ConnectionConfig) (slot : Nat)
  /-- The wait of `build_tunnel` for the local port. -/
  | probing (config : ConnectionConfig) (slot : Nat) (tunnel : Tunnel)
  /-- `remove_unused_slot` -/
  | cleaning (config : ConnectionConfig) (slot : Nat) (error : DomainError)
  | returned (config : ConnectionConfig) (answer : Result (Option (Text × Fin (2 ^ 16))))
  /-- The removal by `evict`. -/
  | evicting (id : Uuid)
  /-- The removals by `shutdown_all`. -/
  | shuttingDown
  /-- The lock of the next slot that was removed; `evict` has one at most. -/
  | closing (slots : List Nat)
  /-- The stop of the tunnel of a slot that was removed. -/
  | stopping (slot : Nat) (tunnel : Tunnel) (rest : List Nat)
  | finished

namespace Call

/-- The slot whose lock the call has. -/
def locks : Call → Option Nat
  | .replacing _ slot _ | .building _ slot | .probing _ slot _ | .stopping slot _ _ => some slot
  | _ => none

/-- The references to slots that the call has. -/
def references : Call → List Nat
  | .fetched _ slot | .replacing _ slot _ | .building _ slot | .probing _ slot _ | .cleaning _ slot _ => [slot]
  | .closing slots => slots
  | .stopping slot _ rest => slot :: rest
  | _ => []

def hasReturned : Call → Bool
  | .returned .. | .finished => true
  | _ => false

end Call

structure TunnelState where
  registry : List (Uuid × Nat) := []
  slots : List (Option Tunnel) := []
  processes : List Process := []
  calls : List Call := []

inductive Act
  | ensure (config : ConnectionConfig)
  | evict (id : Uuid)
  | shutdownAll
  /-- The next step of a call. -/
  | move (call : Nat)
  /-- The lock of the slot by `ensure`. The status of a process may be unknown. -/
  | lock (call : Nat) (known : Bool)
  /-- `drain`, in some order. -/
  | drain (call : Nat) (slots : List Nat)
  /-- `pick_free_port` and `spawn`. -/
  | spawn (call : Nat) (answer : Result (Fin (2 ^ 16)))
  /-- The port can be reached and the output is drained, or the process is terminated. -/
  | probe (call : Nat) (answer : Result Unit)
  /-- A process ends by itself. -/
  | exit (process : Nat)

variable (s : TunnelState) (slot : Nat) (id : Uuid)

namespace TunnelState

def goOn (call : Nat) (next : Call) : TunnelState := { s with calls := s.calls.set call next }

def registered : Option Nat := (s.registry.find? fun entry => entry.1 = id).map Prod.snd

def remove : TunnelState :=
  { s with registry := s.registry.filter fun entry => entry.1 ≠ id }

def current : Option Tunnel := s.slots[slot]?.join

def put (tunnel : Option Tunnel) : TunnelState :=
  { s with slots := s.slots.set slot tunnel }

def isRunning (process : Nat) : Bool := s.processes[process]?.any Process.running

/-- `Tunnel::stop` and `terminate_child`: the process is killed and waited for. -/
def stop (process : Nat) : TunnelState :=
  { s with processes := s.processes.modify process fun child => { child with running := false } }

def isFree : Bool := s.calls.all fun call => call.locks ≠ some slot

/-- `Arc::strong_count` -/
def strongCount : Nat :=
  (s.registry.map Prod.snd).count slot + (s.calls.flatMap Call.references).count slot

def canAllocateTunnelSlot (current : Nat) (alreadyExists : Bool) : Bool := alreadyExists || current < MAX_ACTIVE_TUNNELS

def slotFor : Result (Nat × TunnelState) :=
  if canAllocateTunnelSlot s.registry.length (s.registered id).isSome then
    match s.registered id with
    | some slot => .ok (slot, s)
    | none => .ok (s.slots.length, { s with registry := s.registry ++ [(id, s.slots.length)], slots := s.slots ++ [none] })
  else .error (.QueryFailed ("SSH 隧道已达 " ++ natText MAX_ACTIVE_TUNNELS ++
    " 个并发上限，请先关闭不再使用的连接"))

def removeUnusedSlot (slot : Nat) : TunnelState :=
  if s.registered id = some slot ∧ s.strongCount slot = 2 ∧ s.current slot = none then s.remove id else s

/-- `ensure` with the lock of the slot: the tunnel is used again, or taken out to be stopped. -/
def look (call : Nat) (config : ConnectionConfig) (slot : Nat) (known : Bool) : TunnelState :=
  match s.current slot with
  | none => s.goOn call (.building config slot)
  | some tunnel =>
    if known ∧ s.isRunning tunnel.child ∧ tunnel.fingerprint = fingerprint config then
      s.goOn call (.returned config (.ok (some ("127.0.0.1", tunnel.localPort))))
    else (s.put slot none).goOn call (.replacing config slot tunnel)

def start (config : ConnectionConfig) (slot : Nat) (port : Fin (2 ^ 16)) : TunnelState :=
  { s with processes := s.processes ++ [⟨config, slot, sshArguments config port, true⟩] }

def move (call : Nat) : Call → Option TunnelState
  | .ensuring config =>
    match validate config with
    | .error message => some (s.goOn call (.returned config (.error (.InvalidConfig message))))
    | .ok () =>
      match targetOf config with
      | none => some (s.goOn call (.returned config (.ok none)))
      | some _ =>
        match s.slotFor config.id with
        | .error error => some (s.goOn call (.returned config (.error error)))
        | .ok (slot, fetched) => some (fetched.goOn call (.fetched config slot))
  | .replacing config slot stale => some ((s.stop stale.child).goOn call (.building config slot))
  | .cleaning config slot error =>
    if s.isFree slot then some ((s.removeUnusedSlot config.id slot).goOn call (.returned config (.error error))) else none
  | .evicting id => some ((s.remove id).goOn call (.closing (s.registered id).toList))
  | .closing [] => some (s.goOn call .finished)
  | .closing (slot :: rest) =>
    if s.isFree slot then
      match s.current slot with
      | none => some (s.goOn call (.closing rest))
      | some tunnel => some ((s.put slot none).goOn call (.stopping slot tunnel rest))
    else none
  | .stopping _ tunnel rest => some ((s.stop tunnel.child).goOn call (.closing rest))
  | .fetched .. | .building .. | .probing .. | .shuttingDown | .returned .. | .finished => none

def step : Act → Option TunnelState
  | .ensure config => some { s with calls := s.calls ++ [.ensuring config] }
  | .evict id => some { s with calls := s.calls ++ [.evicting id] }
  | .shutdownAll => some { s with calls := s.calls ++ [.shuttingDown] }
  | .move call => s.calls[call]?.bind (s.move call)
  | .lock call known =>
    match s.calls[call]? with
    | some (.fetched config slot) => if s.isFree slot then some (s.look call config slot known) else none
    | _ => none
  | .drain call slots =>
    match s.calls[call]? with
    | some .shuttingDown =>
      if slots.Perm (s.registry.map Prod.snd) then some ({ s with registry := [] }.goOn call (.closing slots)) else none
    | _ => none
  | .spawn call answer =>
    match s.calls[call]? with
    | some (.building config slot) =>
      match answer with
      | .ok port => some ((s.start config slot port).goOn call (.probing config slot ⟨s.processes.length, port, fingerprint config⟩))
      | .error error => some (s.goOn call (.cleaning config slot error))
    | _ => none
  | .probe call answer =>
    match s.calls[call]? with
    | some (.probing config slot tunnel) =>
      match answer with
      | .ok () => some ((s.put slot (some tunnel)).goOn call (.returned config (.ok (some ("127.0.0.1", tunnel.localPort)))))
      | .error error => some ((s.stop tunnel.child).goOn call (.cleaning config slot error))
    | _ => none
  | .exit process => some (s.stop process)

end TunnelState

/-! ### What holds of the tunnels in every run -/

open Runs Fields List

/-- Where a tunnel goes: the SSH target and its port, the host and its port. -/
def destination (config : ConnectionConfig) : Option Text × Fin (2 ^ 16) × Text × Fin (2 ^ 16) :=
  (targetOf config, config.sshPort.getD 22, config.host, config.port)

/-- The port 22 is never written out, so it is the same as none. -/
theorem portArguments_eq {a b : Option (Fin (2 ^ 16))} (same : a.getD 22 = b.getD 22) : a.filter (· ≠ 22) = b.filter (· ≠ 22) := by
  have absent : ∀ {port : Fin (2 ^ 16)}, 22 = port → Option.filter (· ≠ (22 : Fin (2 ^ 16))) (some port) = none := by
    rintro _ rfl
    rfl
  cases a with
  | none =>
    cases b with
    | none => rfl
    | some port => exact (absent same).symm
  | some port =>
    cases b with
    | none => exact absent same.symm
    | some other => exact congrArg (fun port => (some port).filter (· ≠ 22)) same

theorem sshArguments_eq {a b : ConnectionConfig} (same : destination a = destination b) (localPort : Fin (2 ^ 16)) :
    sshArguments a localPort = sshArguments b localPort := by
  simp only [destination, Prod.mk.injEq] at same
  obtain ⟨target, sshPort, host, port⟩ := same
  rw [sshArguments, sshArguments, target, host, port, portArguments_eq sshPort]

/-- The tunnel that the call has taken from its slot or is to put there. -/
def Call.tunnel : Call → Option (Nat × Tunnel)
  | .replacing _ slot tunnel | .probing _ slot tunnel | .stopping slot tunnel _ => some (slot, tunnel)
  | _ => none

/-- The slots that the call still has to close. -/
def Call.closes : Call → List Nat
  | .closing slots => slots
  | .stopping _ _ rest => rest
  | _ => []

theorem Call.locks_of_tunnel {call : Call} {slot : Nat} {tunnel : Tunnel} (has : call.tunnel = some (slot, tunnel)) :
    call.locks = some slot := by
  cases call <;> cases has <;> rfl

namespace TunnelState

/-- `ssh` was started for this tunnel and its slot. -/
def Serves (s : TunnelState) (slot : Nat) (tunnel : Tunnel) : Prop :=
  ∃ process, s.processes[tunnel.child]? = some process ∧ process.slot = slot ∧
    tunnel.fingerprint = fingerprint process.config ∧ process.arguments = sshArguments process.config tunnel.localPort

/-- A call may reach the slot through the registry, or `evict` or `shutdown_all` has still to close it. -/
def IsReached (s : TunnelState) (slot : Nat) : Prop :=
  (∃ entry ∈ s.registry, entry.2 = slot) ∨ ∃ call ∈ s.calls, slot ∈ call.closes

/-- The answers of `ensure` are ports of tunnels to its own destination. -/
def Answers (s : TunnelState) (call : Call) : Prop :=
  ∀ config host port, call = .returned config (.ok (some (host, port))) → host = "127.0.0.1" ∧
    ∃ process ∈ s.processes, process.arguments = sshArguments config port

/-- The steps that the promises need: `ensure` finds no tunnel to another
    destination under its own fingerprint, and no tunnel comes up in a slot that
    was removed and closed. -/
def Allowed (s : TunnelState) : Act → Prop
  | .lock call known => ∀ config slot tunnel process, s.calls[call]? = some (.fetched config slot) →
      s.current slot = some tunnel → s.processes[tunnel.child]? = some process → known = true → process.running = true →
      fingerprint process.config = fingerprint config → destination process.config = destination config
  | .probe call (.ok ()) => ∀ config slot tunnel, s.calls[call]? = some (.probing config slot tunnel) → s.IsReached slot
  | _ => True

/-- At most one call has the lock of a slot. -/
def Locked (s : TunnelState) : Prop := ∀ slot, (s.calls.countP fun call => call.locks = some slot) ≤ 1

/-- The registry is within its bound, and what refers to a slot refers to one that exists. -/
structure Kept (s : TunnelState) : Prop where
  keys : (s.registry.map Prod.fst).Nodup
  bound : s.registry.length ≤ MAX_ACTIVE_TUNNELS
  inside : ∀ entry ∈ s.registry, entry.2 < s.slots.length
  references : ∀ call ∈ s.calls, ∀ slot ∈ call.references, slot < s.slots.length

/-- The processes that run and the tunnels that hold them. -/
structure Held (s : TunnelState) : Prop where
  /-- A slot is empty while a call has its lock. -/
  empty : ∀ call ∈ s.calls, ∀ slot, call.locks = some slot → s.current slot = none
  stored : ∀ slot tunnel, s.current slot = some tunnel → s.Serves slot tunnel
  taken : ∀ call ∈ s.calls, ∀ slot tunnel, call.tunnel = some (slot, tunnel) → s.Serves slot tunnel
  probed : ∀ config slot tunnel, .probing config slot tunnel ∈ s.calls →
    ∃ process ∈ s.processes, process.arguments = sshArguments config tunnel.localPort
  running : ∀ i process, s.processes[i]? = some process → process.running = true →
    (∃ tunnel, s.current process.slot = some tunnel ∧ tunnel.child = i) ∨
      ∃ call ∈ s.calls, ∃ tunnel, call.tunnel = some (process.slot, tunnel) ∧ tunnel.child = i
  answers : ∀ call ∈ s.calls, s.Answers call

/-- A tunnel is in no slot that nobody reaches. -/
def Reachable (s : TunnelState) : Prop := ∀ slot tunnel, s.current slot = some tunnel → s.IsReached slot

variable {s : TunnelState} {i : Nat} {old new : Call}

variable {slot : Nat}

theorem isFree_iff : s.isFree slot = true ↔ ∀ call ∈ s.calls, call.locks ≠ some slot := by simp [isFree]

@[simp] theorem current_put {other : Nat} {tunnel : Option Tunnel} (inside : slot < s.slots.length) :
    (s.put slot tunnel).current other = if other = slot then tunnel else s.current other := by
  by_cases same : other = slot
  · subst same
    simp [current, put, inside]
  · simp [current, put, same, getElem?_set_ne (Ne.symm same)]

variable {tunnel : Tunnel}

theorem inside_of_current (held : s.current slot = some tunnel) : slot < s.slots.length := by
  by_contra outside
  rw [current, getElem?_eq_none (by omega)] at held
  cases held

theorem stop_getElem? {process at' : Nat} : (s.stop process).processes[at']? =
    (s.processes[at']?).map fun child => if at' = process then { child with running := false } else child := by
  rw [stop, getElem?_modify]
  by_cases same : process = at'
  · simp [same]
  · simp [same, Ne.symm same]

theorem Locked.goOn (locked : s.Locked) (place : s.calls[i]? = some old)
    (takes : ∀ slot, new.locks = some slot → old.locks = some slot ∨ s.isFree slot = true) : (s.goOn i new).Locked := by
  intro slot
  have moved := countP_set_add (fun call => decide (call.locks = some slot)) new place
  have before := locked slot
  show List.countP _ (s.calls.set i new) ≤ 1
  by_cases mine : new.locks = some slot
  · rcases takes slot mine with kept | free
    · simp only [mine, kept, decide_true, if_true] at moved
      omega
    have none : (s.calls.countP fun call => decide (call.locks = some slot)) = 0 :=
      countP_eq_zero.mpr fun call mem taken => isFree_iff.mp free call mem (of_decide_eq_true taken)
    simp only [mine, decide_true, if_true] at moved
    omega
  · simp only [mine, decide_false, Bool.false_eq_true, if_false] at moved
    omega

theorem Locked.same {s' : TunnelState} (locked : s.Locked) (calls : s'.calls = s.calls) : s'.Locked := by
  unfold Locked
  rw [calls]
  exact locked

theorem Locked.arrive (locked : s.Locked) (free : new.locks = none) : Locked { s with calls := s.calls ++ [new] } := by
  intro slot
  simp only [countP_append, countP_singleton, free, reduceCtorEq, decide_false, Bool.false_eq_true, if_false, Nat.add_zero]
  exact locked slot

theorem Locked.unique (locked : s.Locked) {a b : Call} (first : a ∈ s.calls) (second : b ∈ s.calls)
    (mine : a.locks = some slot) (yours : b.locks = some slot) : a = b :=
  eq_of_countP (locked slot) first second (decide_eq_true mine) (decide_eq_true yours)

theorem Locked.released (locked : s.Locked) (place : s.calls[i]? = some old) (mine : old.locks = some slot)
    (gives : new.locks ≠ some slot) : ∀ call ∈ s.calls.set i new, call.locks ≠ some slot := by
  have moved := countP_set_add (fun call => decide (call.locks = some slot)) new place
  have before := locked slot
  simp only [mine, gives, decide_true, decide_false, Bool.false_eq_true, if_true, if_false, Nat.add_zero] at moved
  intro call mem taken
  have none := countP_eq_zero.mp (show (s.calls.set i new).countP (fun call => decide (call.locks = some slot)) = 0 by omega)
  exact none call mem (decide_eq_true taken)

/-- No process is forgotten: each is still there for its slot, running or not. -/
def Extends (s s' : TunnelState) : Prop :=
  ∀ (i : Nat) (process : Process), s.processes[i]? = some process → ∃ process', s'.processes[i]? = some process' ∧
    process'.slot = process.slot ∧ process'.config = process.config ∧ process'.arguments = process.arguments

theorem extends_same {s' : TunnelState} (same : s'.processes = s.processes) : s.Extends s' :=
  fun i process there => ⟨process, by rw [same]; exact there, rfl, rfl, rfl⟩

theorem extends_stop (process : Nat) : s.Extends (s.stop process) := by
  intro i child there
  refine ⟨if i = process then { child with running := false } else child, ?_, ?_, ?_, ?_⟩
  · rw [stop_getElem?, there, Option.map_some]
  all_goals split <;> rfl

theorem extends_start (config : ConnectionConfig) (slot : Nat) (port : Fin (2 ^ 16)) : s.Extends (s.start config slot port) := by
  intro i child there
  obtain ⟨inside, -⟩ := List.getElem?_eq_some_iff.mp there
  exact ⟨child, by rw [start, List.getElem?_append_left inside, there], rfl, rfl, rfl⟩

variable {s' : TunnelState}

theorem Serves.later (serves : s.Serves slot tunnel) (later : s.Extends s') : s'.Serves slot tunnel := by
  obtain ⟨process, there, own, print, started⟩ := serves
  obtain ⟨process', there', slot', config', arguments'⟩ := later _ _ there
  exact ⟨process', there', slot'.trans own, config' ▸ print, by rw [arguments', config', started]⟩

theorem Extends.arguments (later : s.Extends s') {arguments : List Text}
    (there : ∃ process ∈ s.processes, process.arguments = arguments) : ∃ process ∈ s'.processes, process.arguments = arguments := by
  obtain ⟨process, mem, rfl⟩ := there
  obtain ⟨i, inside, rfl⟩ := mem_iff_getElem.mp mem
  obtain ⟨process', there', -, -, same⟩ := later i _ (getElem?_eq_getElem inside)
  exact ⟨process', mem_of_getElem? there', same⟩

variable {call : Call}

theorem Answers.later (answers : s.Answers call) (later : s.Extends s') : s'.Answers call :=
  fun config host port same => (answers config host port same).imp_right later.arguments

theorem answers_of_none (none : ∀ config host port, call ≠ .returned config (.ok (some (host, port)))) : s.Answers call :=
  fun config host port same => absurd same (none config host port)

theorem answers_of_running (runs : call.hasReturned = false) : s.Answers call := by
  refine answers_of_none fun config host port same => ?_
  subst same
  cases runs

theorem running_stop {process at' : Nat} {child : Process} (there : (s.stop process).processes[at']? = some child)
    (runs : child.running = true) : at' ≠ process ∧ s.processes[at']? = some child := by
  rw [stop_getElem?, Option.map_eq_some_iff] at there
  obtain ⟨before, found, same⟩ := there
  split_ifs at same with mine
  · subst same
    cases runs
  · exact ⟨mine, same ▸ found⟩

/-! ### Tunnels -/

section
variable (held : s.Held)
include held

theorem Held.goOn (place : s.calls[i]? = some old) (without : old.tunnel = none) (none : new.tunnel = none)
    (locks : ∀ slot, new.locks = some slot → s.current slot = .none) (answers : s.Answers new) : (s.goOn i new).Held where
  empty := set_forall held.empty locks
  stored := held.stored
  taken := set_forall held.taken fun slot tunnel has => by rw [none] at has; cases has
  probed := by
    intro config slot tunnel mem
    rcases mem_or_eq_of_mem_set mem with there | same
    · exact held.probed config slot tunnel there
    · rw [← same] at none
      cases none
  running := by
    intro number process there runs
    refine (held.running number process there runs).imp_right fun taken => ?_
    rcases set_exists place taken with ⟨tunnel, has, -⟩ | other
    · rw [without] at has
      cases has
    · exact other
  answers := set_forall held.answers answers

theorem Held.same (calls : s'.calls = s.calls) (processes : s'.processes = s.processes)
    (current : s'.current = s.current) : s'.Held where
  empty := by rw [calls, current]; exact held.empty
  stored := by rw [current]; exact fun slot tunnel there => (held.stored slot tunnel there).later (extends_same processes)
  taken := by rw [calls]; exact fun call mem slot tunnel has => (held.taken call mem slot tunnel has).later (extends_same processes)
  probed := by rw [calls, processes]; exact held.probed
  running := by rw [calls, processes, current]; exact held.running
  answers := by rw [calls]; exact fun call mem => (held.answers call mem).later (extends_same processes)

theorem Held.arrive (none : new.tunnel = none) (free : new.locks = .none)
    (unanswered : ∀ config host port, new ≠ .returned config (.ok (some (host, port)))) : Held { s with calls := s.calls ++ [new] } where
  empty := by
    intro call mem slot locks
    rcases mem_append.mp mem with there | same
    · exact held.empty call there slot locks
    · rw [mem_singleton.mp same, free] at locks
      cases locks
  stored := held.stored
  taken := by
    intro call mem slot tunnel has
    rcases mem_append.mp mem with there | same
    · exact held.taken call there slot tunnel has
    · rw [mem_singleton.mp same, none] at has
      cases has
  probed := by
    intro config slot tunnel mem
    rcases mem_append.mp mem with there | same
    · exact held.probed config slot tunnel there
    · rw [← mem_singleton.mp same] at none
      cases none
  running := by
    intro number process there runs
    refine (held.running number process there runs).imp_right ?_
    rintro ⟨call, mem, has⟩
    exact ⟨call, mem_append_left _ mem, has⟩
  answers := by
    intro call mem
    rcases mem_append.mp mem with there | same
    · exact held.answers call there
    · rw [mem_singleton.mp same]
      exact answers_of_none unanswered

theorem Held.stop (process : Nat) : (s.stop process).Held where
  empty := held.empty
  stored := fun slot tunnel there => (held.stored slot tunnel there).later (extends_stop process)
  taken := fun call mem slot tunnel has => (held.taken call mem slot tunnel has).later (extends_stop process)
  probed := fun config slot tunnel mem => (extends_stop process).arguments (held.probed config slot tunnel mem)
  running := fun number child there runs => held.running number child (running_stop there runs).2 runs
  answers := fun call mem => (held.answers call mem).later (extends_stop process)

theorem Held.giveUp (place : s.calls[i]? = some old) (has : old.tunnel = some (slot, tunnel)) (none : new.tunnel = none)
    (locks : ∀ slot, new.locks = some slot → old.locks = some slot)
    (unanswered : ∀ config host port, new ≠ .returned config (.ok (some (host, port)))) : ((s.stop tunnel.child).goOn i new).Held where
  empty := set_forall held.empty fun other mine => held.empty old (mem_of_getElem? place) other (locks other mine)
  stored := (held.stop tunnel.child).stored
  taken := set_forall (held.stop tunnel.child).taken fun slot tunnel has => by rw [none] at has; cases has
  probed := by
    intro config slot tunnel mem
    rcases mem_or_eq_of_mem_set mem with there | same
    · exact (held.stop _).probed config slot tunnel there
    · rw [← same] at none
      cases none
  running := by
    intro number process there runs
    obtain ⟨other, before⟩ := running_stop there runs
    refine (held.running number process before runs).imp_right fun taken => ?_
    rcases set_exists place taken with ⟨tunnel', has', own⟩ | kept
    · rw [has] at has'
      cases has'
      exact absurd own.symm other
    · exact kept
  answers := set_forall (held.stop tunnel.child).answers (answers_of_none unanswered)

theorem Held.take (place : s.calls[i]? = some old) (without : old.tunnel = none)
    (full : s.current slot = some tunnel) (has : new.tunnel = some (slot, tunnel))
    (unprobed : ∀ config slot tunnel, new ≠ .probing config slot tunnel) : ((s.put slot none).goOn i new).Held := by
  have inside := inside_of_current full
  have current : ∀ other, ((s.put slot none).goOn i new).current other = if other = slot then none else s.current other :=
    fun other => current_put inside
  refine ⟨?_, ?_, ?_, ?_, ?_, ?_⟩
  · refine set_forall ?_ ?_
    · intro call mem other locks
      rw [current]
      split_ifs
      · rfl
      · exact held.empty call mem other locks
    · intro other locks
      rw [Call.locks_of_tunnel has, Option.some_inj] at locks
      rw [current, if_pos locks.symm]
  · intro other tunnel' there
    rw [current] at there
    split_ifs at there
    exact held.stored other tunnel' there
  · refine set_forall held.taken ?_
    intro other tunnel' mine
    rw [has] at mine
    cases mine
    exact held.stored slot tunnel full
  · intro config other tunnel' mem
    rcases mem_or_eq_of_mem_set mem with there | same
    · exact held.probed config other tunnel' there
    · exact absurd same.symm (unprobed config other tunnel')
  · intro number process there runs
    rcases held.running number process there runs with ⟨tunnel', stored, own⟩ | taken
    · by_cases same : process.slot = slot
      · rw [same, full, Option.some_inj] at stored
        subst stored
        exact .inr (set_exists_new place ⟨tunnel, same ▸ has, own⟩)
      · exact .inl ⟨tunnel', by rw [current, if_neg same]; exact stored, own⟩
    · rcases set_exists place taken with ⟨tunnel', has', -⟩ | kept
      · rw [without] at has'
        cases has'
      · exact .inr kept
  · refine set_forall held.answers (answers_of_none fun config host port same => ?_)
    rw [same] at has
    cases has

theorem Held.start {config : ConnectionConfig} (place : s.calls[i]? = some (.building config slot)) (port : Fin (2 ^ 16)) :
    ((s.start config slot port).goOn i (.probing config slot ⟨s.processes.length, port, fingerprint config⟩)).Held := by
  have later : s.Extends (s.start config slot port) := extends_start config slot port
  have started : (s.start config slot port).processes[s.processes.length]? = some ⟨config, slot, sshArguments config port, true⟩ := by
    simp [TunnelState.start]
  refine ⟨?_, ?_, ?_, ?_, ?_, ?_⟩
  · exact set_forall held.empty fun other locks => held.empty _ (mem_of_getElem? place) other locks
  · exact fun other tunnel there => (held.stored other tunnel there).later later
  · refine set_forall (fun call mem other tunnel has => (held.taken call mem other tunnel has).later later) ?_
    intro other tunnel has
    cases has
    exact ⟨_, started, rfl, rfl, rfl⟩
  · intro config' other tunnel mem
    rcases mem_or_eq_of_mem_set mem with there | same
    · exact later.arguments (held.probed config' other tunnel there)
    · cases same
      exact ⟨_, mem_of_getElem? started, rfl⟩
  · intro number process there runs
    by_cases first : number < s.processes.length
    · have before : s.processes[number]? = some process := by
        rw [← List.getElem?_append_left first]
        exact there
      refine (held.running number process before runs).imp_right fun taken => ?_
      rcases set_exists place taken with ⟨tunnel, has, -⟩ | kept
      · cases has
      · exact kept
    · obtain ⟨inside, -⟩ := List.getElem?_eq_some_iff.mp there
      have last : number = s.processes.length := by
        have bound : number < (s.processes ++ [_]).length := inside
        rw [length_append, length_singleton] at bound
        omega
      subst last
      cases started.symm.trans there
      exact .inr (set_exists_new place ⟨_, rfl, rfl⟩)
  · refine set_forall (fun call mem => (held.answers call mem).later later) ?_
    exact answers_of_running rfl

theorem Held.store (locked : s.Locked) {config : ConnectionConfig}
    (place : s.calls[i]? = some (.probing config slot tunnel)) (inside : slot < s.slots.length) :
    ((s.put slot (some tunnel)).goOn i (.returned config (.ok (some ("127.0.0.1", tunnel.localPort))))).Held := by
  have mem := mem_of_getElem? place
  have current : ∀ other, (s.put slot (some tunnel)).current other = if other = slot then some tunnel else s.current other :=
    fun other => current_put inside
  refine ⟨?_, ?_, ?_, ?_, ?_, ?_⟩
  · intro call there other locks
    have others : other ≠ slot := by
      rintro rfl
      exact locked.released place rfl (by intro same; cases same) call there locks
    show (s.put slot (some tunnel)).current other = none
    rw [current, if_neg others]
    rcases mem_or_eq_of_mem_set there with before | same
    · exact held.empty call before other locks
    · subst same
      cases locks
  · intro other tunnel' there
    change (s.put slot (some tunnel)).current other = some tunnel' at there
    rw [current] at there
    split_ifs at there with same
    · cases there
      subst same
      exact held.taken _ mem _ _ rfl
    · exact held.stored other tunnel' there
  · refine set_forall held.taken fun other tunnel' has => ?_
    cases has
  · intro config' other tunnel' there
    rcases mem_or_eq_of_mem_set there with before | same
    · exact held.probed config' other tunnel' before
    · cases same
  · intro number process there runs
    rcases held.running number process there runs with ⟨tunnel', stored, own⟩ | taken
    · have others : process.slot ≠ slot := by
        intro same
        have empty := held.empty _ mem slot rfl
        rw [← same, stored] at empty
        cases empty
      refine .inl ⟨tunnel', ?_, own⟩
      show (s.put slot (some tunnel)).current process.slot = some tunnel'
      rw [current, if_neg others]
      exact stored
    · rcases set_exists place taken with ⟨tunnel', has, own⟩ | kept
      · cases has
        refine .inl ⟨tunnel, ?_, own⟩
        show (s.put process.slot (some tunnel)).current process.slot = some tunnel
        rw [current, if_pos rfl]
      · exact .inr kept
  · refine set_forall held.answers ?_
    intro config' host port same
    obtain ⟨rfl, rfl, rfl⟩ := same
    exact ⟨rfl, held.probed config slot tunnel mem⟩

end

theorem Kept.goOn (kept : s.Kept) (inside : ∀ slot ∈ new.references, slot < s.slots.length) : (s.goOn i new).Kept where
  keys := kept.keys
  bound := kept.bound
  inside := kept.inside
  references := set_forall kept.references inside

theorem Kept.goesOn (kept : s.Kept) (place : s.calls[i]? = some old) (fewer : new.references ⊆ old.references) : (s.goOn i new).Kept :=
  kept.goOn fun slot mine => kept.references old (mem_of_getElem? place) slot (fewer mine)

theorem Kept.put (kept : s.Kept) (slot : Nat) (tunnel : Option Tunnel) : (s.put slot tunnel).Kept where
  keys := kept.keys
  bound := kept.bound
  inside := by
    show ∀ entry ∈ s.registry, entry.2 < (s.slots.set slot tunnel).length
    rw [length_set]
    exact kept.inside
  references := by
    show ∀ call ∈ s.calls, ∀ other ∈ call.references, other < (s.slots.set slot tunnel).length
    rw [length_set]
    exact kept.references

theorem Kept.processes (kept : s.Kept) (processes : List Process) : Kept { s with processes := processes } :=
  ⟨kept.keys, kept.bound, kept.inside, kept.references⟩

theorem Kept.arrive (kept : s.Kept) (none : new.references = []) : Kept { s with calls := s.calls ++ [new] } where
  keys := kept.keys
  bound := kept.bound
  inside := kept.inside
  references := by
    intro call mem slot mine
    rcases mem_append.mp mem with there | same
    · exact kept.references call there slot mine
    · rw [mem_singleton.mp same, none] at mine
      cases mine

variable {id : Uuid}

theorem registered_some (found : s.registered id = some slot) : (id, slot) ∈ s.registry := by
  rw [registered, Option.map_eq_some_iff] at found
  obtain ⟨entry, here, rfl⟩ := found
  have same := find?_some here
  exact of_decide_eq_true same ▸ mem_of_find?_eq_some here

theorem registered_none (missing : s.registered id = none) : id ∉ s.registry.map Prod.fst := by
  intro mem
  obtain ⟨entry, there, rfl⟩ := mem_map.mp mem
  rw [registered, Option.map_eq_none_iff, find?_eq_none] at missing
  exact missing entry there (decide_eq_true rfl)

theorem Kept.registered_unique (kept : s.Kept) {entry : Uuid × Nat} (found : s.registered id = some slot)
    (mem : entry ∈ s.registry) (same : entry.1 = id) : entry.2 = slot :=
  congrArg Prod.snd (inj_on_of_nodup_map kept.keys mem (registered_some found) same)

theorem slotFor_cases {fetched : TunnelState} (done : s.slotFor id = .ok (slot, fetched)) : (s.registered id = some slot ∧ fetched = s) ∨
      (s.registered id = none ∧ s.registry.length < MAX_ACTIVE_TUNNELS ∧ slot = s.slots.length ∧
        fetched = { s with registry := s.registry ++ [(id, s.slots.length)], slots := s.slots ++ [none] }) := by
  unfold slotFor at done
  split at done
  · rename_i room
    cases found : s.registered id with
    | some held =>
      rw [found] at done
      cases done
      exact .inl ⟨rfl, rfl⟩
    | none =>
      rw [found] at done room
      cases done
      simpa [canAllocateTunnelSlot] using room
  · cases done

end TunnelState

end Ramag.SshTunnels
