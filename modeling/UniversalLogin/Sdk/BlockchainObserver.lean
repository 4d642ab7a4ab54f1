import Mathlib.Data.List.TakeWhile
import UniversalLogin.Commons.Messages
import UniversalLogin.Contracts.KeyHolder
import UniversalLogin.Lib.Transition
import UniversalLogin.Sdk.ObserverBase

/-!
# BlockchainObserver

The observer of added and removed keys (`BlockchainObserver.ts`). A fetch asks for the logs of one
filter after another, from the block on that was the last one when the fetch before it ended. This
block may have been asked for already, and a block that is mined between the answer for a filter and
the end of the fetch is asked for by nobody.

What `getLogs` takes for an address is resolved by the provider.
-/

namespace UniversalLogin

open Transition

/-- The arguments of an event, if it is of the type. -/
def KeyEventType.args : KeyEventType → Event → Option (Address × Uint256)
  | .keyAdded, .keyAdded key purpose => some (key, purpose)
  | .keyRemoved, .keyRemoved key purpose => some (key, purpose)
  | _, _ => none

structure KeyInfo where
  key : JsString
  purpose : Nat
  deriving DecidableEq

/-- It throws if the event is of another type, or if the purpose is no safe number. -/
def parseArgs (type : KeyEventType) (event : Event) : Option KeyInfo :=
  match type.args event with
  | some (key, purpose) =>
    if purpose.toNat < 2 ^ 53 then some ⟨hexlify (packAddress key), purpose.toNat⟩ else none
  | none => none

structure ChainLog where
  blockNumber : Nat
  logIndex : Nat
  address : Address
  event : Event
  deriving DecidableEq

structure KeySubscription where
  callback : Nat
  eventType : KeyEventType
  filter : Filter
  /-- The last block when it was made. -/
  madeAt : Nat
  deriving DecidableEq

/-- The logs of a type were answered for a filter, up to a block. -/
structure LogsAnswer where
  eventType : KeyEventType
  filter : Filter
  blockNumber : Nat
  deriving DecidableEq

inductive ObserverPhase
  | stopped
  | idle
  /-- In `fetchEventsOfType`, before the logs of the first one of the filters are answered. -/
  | fetching (type : KeyEventType) (filters : List Filter)
  /-- A tick was rejected. -/
  | failed

/-- The observer, the chain, and a record of what has happened. -/
structure BlockchainObserver where
  emitters : Emitters
  lastBlock : Nat
  phase : ObserverPhase
  blockNumber : Nat
  logs : List ChainLog
  startBlock : Nat
  subscriptions : List KeySubscription
  /-- The calls of callbacks, with the log that each of them was for. -/
  delivered : List (Nat × ChainLog)
  /-- What was answered in this fetch, and in the one before. -/
  answers : List LogsAnswer
  previous : List LogsAnswer
  /-- The last block when this fetch began, and when the last complete one began. -/
  fetchBlock : Nat
  complete : Nat

namespace BlockchainObserver

def initial : BlockchainObserver := ⟨[], 0, .stopped, 0, [], 0, [], [], [], [], 0, 0⟩

inductive Action
  | subscribe (eventType : KeyEventType) (filter : Filter)
  | mine (events : List (Address × Event))
  /-- `start` gets the block number. -/
  | start
  | tick
  /-- `fetchEventsOfType` gets the logs of a filter. -/
  | logs
  /-- The second call of `fetchEventsOfType`. -/
  | fetchKeyRemoved
  /-- `fetchEvents` gets the block number. -/
  | blockNumber

/-- The events of a block, with their places in it. -/
def blockLogs (blockNumber : Nat) (events : List (Address × Event)) : List ChainLog :=
  events.zipIdx.map fun ((address, event), i) => ⟨blockNumber, i, address, event⟩

section
variable (resolveName : JsString → Option Address) (observer : BlockchainObserver)

/-- Without an address the logs of all contracts are answered. -/
def getLogs (type : KeyEventType) (filter : Filter) : Option (List ChainLog) :=
  let logs := observer.logs.filter fun log =>
    observer.lastBlock ≤ log.blockNumber ∧ (type.args log.event).isSome
  match filter.contractAddress with
  | none => some logs
  | some contractAddress =>
    (resolveName contractAddress).map fun address => logs.filter (·.address = address)

/-- The logs before the first one that `parseArgs` does not take. -/
def parsedLogs (type : KeyEventType) (logs : List ChainLog) : List ChainLog :=
  logs.takeWhile fun log => (parseArgs type log.event).isSome

/-- If the event of a log is emitted. A key that is not there is not `"undefined"`. -/
def passes (type : KeyEventType) (filter : Filter) (log : ChainLog) : Bool :=
  (parseArgs type log.event).any fun info =>
    filter.key = some "undefined".toList ∨ filter.key = some info.key

/-- The calls of callbacks for an answer. -/
def calls (type : KeyEventType) (filter : Filter) (logs : List ChainLog) :
    List (Nat × ChainLog) :=
  (parsedLogs type logs).flatMap fun log =>
    if passes type filter log then
      (observer.emitters.callbacks filter (.key type)).map (·, log)
    else []

def subscribe (eventType : KeyEventType) (filter : Filter) : BlockchainObserver :=
  let callback := observer.subscriptions.length
  { observer with
    emitters := observer.emitters.subscribe (.key eventType) filter callback
    subscriptions := observer.subscriptions ++
      [⟨callback, eventType, filter.lowerKey, observer.blockNumber⟩] }

def mine (events : List (Address × Event)) : BlockchainObserver :=
  { observer with
    blockNumber := observer.blockNumber + 1
    logs := observer.logs ++ blockLogs (observer.blockNumber + 1) events }

def started : BlockchainObserver :=
  { observer with
    lastBlock := observer.blockNumber
    startBlock := observer.blockNumber
    phase := .idle }

def ticked : BlockchainObserver :=
  { observer with
    fetchBlock := observer.blockNumber
    phase := .fetching .keyAdded observer.emitters.filters }

def gotLogs (type : KeyEventType) (filter : Filter) (filters : List Filter)
    (logs : List ChainLog) : BlockchainObserver :=
  { observer with
    delivered := observer.delivered ++ observer.calls type filter logs
    answers := observer.answers ++ [⟨type, filter, observer.blockNumber⟩]
    phase := if parsedLogs type logs = logs then .fetching type filters else .failed }

def fetchedKeyAdded : BlockchainObserver :=
  { observer with phase := .fetching .keyRemoved observer.emitters.filters }

def fetchedEvents : BlockchainObserver :=
  { observer with
    lastBlock := observer.blockNumber
    phase := .idle
    answers := []
    previous := observer.answers
    complete := observer.fetchBlock }

def step : Action → Option BlockchainObserver
  | .subscribe eventType filter => some (observer.subscribe eventType filter)
  | .mine events => some (observer.mine events)
  | .start =>
    match observer.phase with
    | .stopped => some observer.started
    | _ => none
  | .tick =>
    match observer.phase with
    | .idle => some observer.ticked
    | _ => none
  | .logs =>
    match observer.phase with
    | .fetching type (filter :: filters) =>
      match getLogs resolveName observer type filter with
      | some logs => some (observer.gotLogs type filter filters logs)
      | none => some { observer with phase := .failed }
    | _ => none
  | .fetchKeyRemoved =>
    match observer.phase with
    | .fetching .keyAdded [] => some observer.fetchedKeyAdded
    | _ => none
  | .blockNumber =>
    match observer.phase with
    | .fetching .keyRemoved [] => some observer.fetchedEvents
    | _ => none

end

/-! ## What an answer delivers -/

theorem mem_parsedLogs {type : KeyEventType} {logs : List ChainLog}
    (h : log ∈ parsedLogs type logs) : log ∈ logs :=
  (List.takeWhile_prefix _).subset h

theorem count_flatMap_map [DecidableEq α] (p : α → Bool) (callbacks : List Nat) (xs : List α)
    (c : Nat) (x : α) :
    (xs.flatMap fun x => if p x then callbacks.map (·, x) else []).count (c, x) =
      xs.count x * if p x then callbacks.count c else 0 := by
  have hmap (y : α) : (callbacks.map (·, y)).count (c, x) =
      if y = x then callbacks.count c else 0 := by
    induction callbacks with
    | nil => simp
    | cons c' callbacks ih =>
      simp only [List.map_cons, List.count_cons, ih, beq_iff_eq, Prod.mk.injEq]
      by_cases hy : y = x <;> simp [hy]
  induction xs with
  | nil => simp
  | cons y xs ih =>
    rw [List.flatMap_cons, List.count_append, ih, List.count_cons]
    by_cases hy : y = x
    · subst hy
      by_cases hp : p y <;> simp [hp, hmap, Nat.add_mul, Nat.add_comm]
    · by_cases hp : p y <;> simp [hp, hmap, hy]

/-- The calls of a callback for a log. -/
theorem count_calls {observer : BlockchainObserver} {type : KeyEventType} {filter : Filter}
    {logs : List ChainLog} (hnodup : logs.Nodup) (c : Nat) (log : ChainLog) :
    (observer.calls type filter logs).count (c, log) =
      if log ∈ parsedLogs type logs ∧ passes type filter log
      then (observer.emitters.callbacks filter (.key type)).count c else 0 := by
  have hparsed : (parsedLogs type logs).Nodup :=
    hnodup.sublist (List.takeWhile_sublist _)
  rw [calls, count_flatMap_map, hparsed.count]
  by_cases hmem : log ∈ parsedLogs type logs <;> by_cases hpasses : passes type filter log <;>
    simp [hmem, hpasses]

section
variable {resolveName : JsString → Option Address}

theorem mem_getLogs {observer : BlockchainObserver} {type : KeyEventType} {filter : Filter}
    {logs : List ChainLog}
    (h : getLogs resolveName observer type filter = some logs) :
    log ∈ logs ↔ log ∈ observer.logs ∧ observer.lastBlock ≤ log.blockNumber ∧
      (type.args log.event).isSome ∧
      ∀ contractAddress, filter.contractAddress = some contractAddress →
        resolveName contractAddress = some log.address := by
  rw [getLogs] at h
  cases hcontract : filter.contractAddress with
  | none =>
    simp only [hcontract, Option.some.injEq] at h
    subst h
    simp
  | some contractAddress =>
    simp only [hcontract, Option.map_eq_some_iff] at h
    obtain ⟨address, hresolve, rfl⟩ := h
    simp only [List.mem_filter, decide_eq_true_eq, Option.some.injEq, forall_eq']
    rw [hresolve, Option.some.injEq]
    tauto

theorem nodup_getLogs {observer : BlockchainObserver} {type : KeyEventType} {filter : Filter}
    {logs : List ChainLog}
    (h : getLogs resolveName observer type filter = some logs) (hnodup : observer.logs.Nodup) :
    logs.Nodup := by
  rw [getLogs] at h
  cases hcontract : filter.contractAddress with
  | none =>
    simp only [hcontract, Option.some.injEq] at h
    subst h
    exact hnodup.filter _
  | some contractAddress =>
    simp only [hcontract, Option.map_eq_some_iff] at h
    obtain ⟨address, _, rfl⟩ := h
    exact (hnodup.filter _).filter _

/-! ## Steps -/

variable {observer observer' : BlockchainObserver}

theorem step_logs_iff : step resolveName observer .logs = some observer' ↔
    ∃ type filter filters, observer.phase = .fetching type (filter :: filters) ∧
      ((∃ logs, getLogs resolveName observer type filter = some logs ∧
          observer.gotLogs type filter filters logs = observer') ∨
        getLogs resolveName observer type filter = none ∧
          { observer with phase := .failed } = observer') := by
  rw [step]
  constructor
  · intro h
    split at h
    · next type filter filters hphase =>
      refine ⟨type, filter, filters, hphase, ?_⟩
      split at h
      · next logs hlogs => exact .inl ⟨logs, hlogs, Option.some.inj h⟩
      · next hlogs => exact .inr ⟨hlogs, Option.some.inj h⟩
    · cases h
  · rintro ⟨type, filter, filters, hphase, ⟨logs, hlogs, rfl⟩ | ⟨hlogs, rfl⟩⟩ <;>
      simp only [hphase, hlogs]

theorem step_start_iff : step resolveName observer .start = some observer' ↔
    observer.phase = .stopped ∧ observer.started = observer' := by
  rw [step]
  split <;> simp_all

theorem step_tick_iff : step resolveName observer .tick = some observer' ↔
    observer.phase = .idle ∧ observer.ticked = observer' := by
  rw [step]
  split <;> simp_all

theorem step_fetchKeyRemoved_iff : step resolveName observer .fetchKeyRemoved = some observer' ↔
    observer.phase = .fetching .keyAdded [] ∧ observer.fetchedKeyAdded = observer' := by
  rw [step]
  split <;> simp_all

theorem step_blockNumber_iff : step resolveName observer .blockNumber = some observer' ↔
    observer.phase = .fetching .keyRemoved [] ∧ observer.fetchedEvents = observer' := by
  rw [step]
  split <;> simp_all

end

end BlockchainObserver

end UniversalLogin
