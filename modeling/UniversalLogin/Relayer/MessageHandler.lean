import UniversalLogin.Relayer.CallLogs
import UniversalLogin.Relayer.MessageExecutor

/-!
# MessageHandler

The handler of messages at work (`MessageHandler.ts`, `MessageQueueService.ts`): calls of clients,
the loops that `start` has begun, and the calls of `stopLater` that wait. All take steps in any
order and share the tables and the state of the queue.

Code between two awaits runs without interruption. A step of a call of a client or of `execute`
answers a query and goes on to the next one, since what it does in between is seen by nobody. A loop
reads the state of the queue when it goes on, so for a loop the answer of `getNext`, the end of
`execute` or of `sleep`, and the going on are steps of their own.
-/

namespace UniversalLogin

open Async

/-! ## Functions -/

/-- The outcome of `getNext`, whose only query is answered by `r`. -/
def MessageQueueSQLStore.nextOf (r : Except JsError (Option FinalMessageRow)) :
    Except JsError (Option QueuedMessage) :=
  match r with
  | .ok row => (nextMessage row).mapError .thrown
  | .error e => .error e

theorem MessageQueueSQLStore.getNext_eq :
    getNext = .await .selectNextFinalMessage fun r => .done (nextOf r) := by
  rw [getNext]
  change Async.await _ _ = _
  congr
  funext r
  cases r <;> rfl

namespace MessageQueueService

def execute (executor : Executor) (signedMessage : SignedMessage) (messageHash : Bytes32) :
    Promise Unit := do
  let outcome ← Async.settle (do
    let transactionRes ← MessageExecutor.executeAndWait executor signedMessage
    PendingMessagesSQLStore.setTransactionHash messageHash transactionRes.hash
    MessageQueueSQLStore.markAsSuccess messageHash transactionRes.hash)
  match outcome with
  | .ok _ => return ()
  | .error error => MessageQueueSQLStore.markAsError messageHash error.text

def add (ethers : Ethers) (signedMessage : SignedMessage) : Promise Bytes32 :=
  MessageQueueSQLStore.add ethers.crypto signedMessage

def getStatus (messageHash : Bytes32) : Promise (Option QueueStatus) :=
  MessageQueueSQLStore.getStatus messageHash

end MessageQueueService

namespace MessageHandler

/-- A status as the handler returns it. -/
structure Status extends MessageStatus where
  error : Option JsString
  deriving DecidableEq

/-- `{...pendingStatus, ...queueStatus}` -/
def merge (pendingStatus : MessageStatus) : Option QueueStatus → Status
  | none => { pendingStatus with error := none }
  | some queueStatus =>
    { pendingStatus with
      messageHash := some queueStatus.messageHash
      transactionHash := queueStatus.transactionHash
      error := queueStatus.error }

def getStatus (messageHash : Bytes32) : Promise (Option Status) := do
  let present ← PendingMessages.isPresent messageHash
  if present = false then
    return none
  else
    let pendingStatus ← PendingMessages.getStatus messageHash
    let queueStatus ← MessageQueueService.getStatus messageHash
    return some (merge pendingStatus queueStatus)

def handleMessage (ethers : Ethers) (message : SignedMessage) : Promise MessageStatus :=
  PendingMessages.add ethers message

end MessageHandler

/-! ## The handler at work -/

/-- What a client asks of the services. -/
inductive Request
  | handleMessage (message : SignedMessage)
  | getStatus (messageHash : Bytes32)
  /-- `MessageQueueService.add` -/
  | add (message : SignedMessage)

inductive Response
  | handled (status : MessageStatus)
  | status (status : Option MessageHandler.Status)
  | added (messageHash : Bytes32)

def Request.serve (ethers : Ethers) : Request → Promise Response
  | handleMessage message => do
    let status ← MessageHandler.handleMessage ethers message
    return .handled status
  | getStatus messageHash => do
    let status ← MessageHandler.getStatus messageHash
    return .status status
  | add message => do
    let messageHash ← MessageQueueService.add ethers message
    return .added messageHash

inductive QueueState
  | running
  | stopped
  | stopping
  deriving DecidableEq

/-- Where a loop stands. -/
inductive Loop
  /-- It awaits `getNext`, which has not read the table yet. -/
  | gettingNext
  /-- `getNext` has read the table, and the loop has not gone on. -/
  | gotNext (next : Except JsError (Option QueuedMessage))
  | executing (next : QueuedMessage) (call : ServiceCall Unit)
  | sleeping
  | returned

/-- A loop that goes on without a message, with the state of the queue. -/
def Loop.goOn (state : QueueState) : Loop → Option (QueueState × Loop)
  | gotNext (.ok none) =>
    if state = .stopping then some (.stopped, returned) else some (state, sleeping)
  | executing _ ⟨_, .done (.ok _)⟩ | sleeping =>
    if state = .stopped then some (state, returned) else some (state, gettingNext)
  | _ => none

/-- The loop is rejected, and `onCritical` exits the process. -/
def Loop.critical : Loop → Prop
  | gotNext (.error _) | executing _ ⟨_, .done (.error _)⟩ => True
  | _ => False

/-- The services at work. Calls of `stopLater` are listed in their order, with `true` when they have
been resolved. -/
structure Handler (C : Type) where
  db : Database
  calls : C → ServiceCall Response
  state : QueueState
  loops : List Loop
  stopLaters : List Bool
  exited : Bool

namespace Handler

/-- A handler that has just been constructed, and calls that will be made. -/
def initial (ethers : Ethers) (db : Database) (requests : C → Request) : Handler C where
  db
  calls := begin fun c => (requests c).serve ethers
  state := .stopped
  loops := []
  stopLaters := []
  exited := false

/-- What happens in a step, where `i` numbers the loops and `k` the calls of `stopLater`. -/
inductive Event (C : Type)
  /-- A call of a client is answered. -/
  | answered (c : C) (e : Answered Query Query.Answer JsError)
  /-- The client is told the outcome. -/
  | settled (c : C)
  | start
  | stop
  | stopLater
  | resolved (k : Nat)
  | gotNext (i : Nat) (next : Except JsError (Option QueuedMessage))
  /-- The loop goes on without a message. -/
  | wentOn (i : Nat)
  /-- The loop passes a message to `executeAndWait`. -/
  | passed (i : Nat) (next : QueuedMessage)
  /-- The execution of a message is answered. -/
  | executed (i : Nat) (messageHash : Bytes32) (e : Answered Query Query.Answer JsError)
  | exited (i : Nat)

section
variable [DecidableEq C] (wallets : Address → Option Storage) (executor : Executor)

inductive Step : Handler C → Event C → Handler C → Prop
  | answered (hexited : m.exited = false)
      (hcall : Async.Call.Step (Query.Answers wallets) m.db (m.calls c) e db' c') :
    Step m (.answered c e) { m with db := db', calls := Function.update m.calls c c' }
  | settled (hexited : m.exited = false) (hdone : (m.calls c).rest = .done r) :
    Step m (.settled c) m
  | start (hexited : m.exited = false) (hstate : m.state ≠ .running) :
    Step m .start { m with state := .running, loops := m.loops ++ [.gettingNext] }
  | startAgain (hexited : m.exited = false) (hstate : m.state = .running) : Step m .start m
  | stop (hexited : m.exited = false) : Step m .stop { m with state := .stopped }
  | stopLater (hexited : m.exited = false) :
    Step m .stopLater { m with state := .stopping, stopLaters := m.stopLaters ++ [false] }
  | resolved (hexited : m.exited = false) (hwaits : m.stopLaters[k]? = some false)
      (hstate : m.state = .stopped) :
    Step m (.resolved k) { m with stopLaters := m.stopLaters.set k true }
  | gotNext (hexited : m.exited = false) (hloop : m.loops[i]? = some .gettingNext)
      (hquery : Query.Answers wallets .selectNextFinalMessage m.db r m.db) :
    Step m (.gotNext i (MessageQueueSQLStore.nextOf r)) { m with
      loops := m.loops.set i (.gotNext (MessageQueueSQLStore.nextOf r)) }
  | wentOn (hexited : m.exited = false) (hloop : m.loops[i]? = some loop)
      (hgoes : loop.goOn m.state = some (state', loop')) :
    Step m (.wentOn i) { m with state := state', loops := m.loops.set i loop' }
  | passed (hexited : m.exited = false)
      (hloop : m.loops[i]? = some (.gotNext (.ok (some next)))) :
    Step m (.passed i next) { m with
      loops := m.loops.set i (.executing next
        (.begin (MessageQueueService.execute executor next.message next.messageHash))) }
  | executed (hexited : m.exited = false) (hloop : m.loops[i]? = some (.executing next call))
      (hcall : Async.Call.Step (Query.Answers wallets) m.db call e db' call') :
    Step m (.executed i next.messageHash e) { m with
      db := db', loops := m.loops.set i (.executing next call') }
  | exited (hexited : m.exited = false) (hloop : m.loops[i]? = some loop)
      (hcritical : loop.critical) :
    Step m (.exited i) { m with exited := true }

end

end Handler

end UniversalLogin
