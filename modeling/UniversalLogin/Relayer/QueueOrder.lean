import UniversalLogin.Relayer.Loops

/-!
# The order of the queue

One loop that is started once. The rows that are marked come before those that are open, as long as
rows are inserted at later and later times, so that `getNext` finds the first open row. The messages
passed to `executeAndWait` are those of the marked rows and the one that is executed (`InOrder`),
and a row is marked with the outcome of its own execution (`Recorded`).
-/

namespace UniversalLogin

open Async Labelled

/-- The row is marked with what `executeAndWait` has returned or thrown. -/
def FinalMessageRow.Records (row : FinalMessageRow) : Except JsError TransactionResponse → Prop
  | .ok transactionRes => row.transactionHash = some transactionRes.hash ∧ row.error = none
  | .error e => row.transactionHash = none ∧ row.error = some e.text

/-- The row of an inserted message. -/
structure FinalMessageRow.Stores (ethers : Ethers) (row : FinalMessageRow)
    (p : Bytes32 × SignedMessage) : Prop where
  messageHash : row.messageHash = p.1
  message : row.message = stringifySignedMessageFields p.2
  hash : calculateMessageHash ethers.crypto p.2.toUnsignedMessage = .ok p.1

/-- The message that is passed to `executeAndWait` is the inserted one. -/
structure QueuedMessage.Is (next : QueuedMessage) (p : Bytes32 × SignedMessage) : Prop where
  messageHash : next.messageHash = p.1
  message : next.message.Same p.2

theorem FinalMessageRow.Decodes.is {row : FinalMessageRow} (hdecodes : row.Decodes next)
    (hstores : row.Stores ethers p) : next.Is p := by
  refine ⟨hdecodes.1.symm.trans hstores.messageHash, ?_⟩
  obtain ⟨message, hmessage, hsame⟩ := bignumberify_stringify hstores.hash
  rw [← hstores.message] at hmessage
  cases hdecodes.2.symm.trans hmessage
  exact hsame

theorem FinalMessageRow.Stores.marked {row : FinalMessageRow} (h : row.Stores ethers p) :
    (markRow hash' data row).Stores ethers p := by
  rw [markRow]
  split
  · exact ⟨h.messageHash, h.message, h.hash⟩
  · exact h

theorem markRow_append {front back : List FinalMessageRow} {row : FinalMessageRow}
    (hnodup : ((front ++ row :: back).map (·.messageHash)).Nodup)
    (hhash : row.messageHash = messageHash) :
    (front ++ row :: back).map (markRow messageHash data) = front ++ row.update data :: back := by
  rw [List.map_append, List.map_cons, List.nodup_append, List.nodup_cons] at hnodup
  obtain ⟨_, ⟨hback, _⟩, hfront⟩ := hnodup
  have hsame : ∀ rows : List FinalMessageRow, (∀ r ∈ rows, r.messageHash ≠ messageHash) →
      rows.map (markRow messageHash data) = rows := fun rows h =>
    (List.map_congr_left fun r hr => markRow_of_ne (h r hr)).trans (List.map_id' rows)
  rw [List.map_append, List.map_cons, hsame front, hsame back, markRow, if_pos hhash]
  · intro r hr heq
    exact hback (List.mem_map.mpr ⟨r, hr, heq.trans hhash.symm⟩)
  · intro r hr heq
    exact hfront _ (List.mem_map_of_mem hr) _ List.mem_cons_self (heq.trans hhash.symm)

theorem is_of_stores {rows : List FinalMessageRow}
    (hdecoded : List.Forall₂ FinalMessageRow.Decodes rows nexts)
    (hstores : List.Forall₂ (FinalMessageRow.Stores ethers) rows ps) :
    List.Forall₂ QueuedMessage.Is nexts ps := by
  induction hdecoded generalizing ps with
  | nil =>
    cases hstores
    exact .nil
  | cons hdecodes _ ih =>
    cases hstores with
    | cons hrow hrest => exact .cons (hdecodes.is hrow) (ih hrest)

namespace Handler

section
variable {C : Type} {wallets : Address → Option Storage} {executor : Executor} {ethers : Ethers}
  {requests : C → Request} {m m' : Handler C} {trace : List (Event C)}

/-- The message that is inserted, with its hash. -/
def Event.inserts : Event C → Option (Bytes32 × SignedMessage)
  | answered _ ⟨.insertFinalMessage messageHash message, .ok _⟩ => some (messageHash, message)
  | _ => none

def Event.passes : Event C → Option QueuedMessage
  | passed _ next => some next
  | _ => none

theorem Event.silent_of_aside {e : Event C} (h : e.aside) : e.inserts = none ∧ e.passes = none := by
  cases e with
  | answered c e =>
    obtain ⟨q, r⟩ := e
    cases q with
    | insertFinalMessage _ _ =>
      cases r with
      | error e => exact ⟨rfl, rfl⟩
      | ok a => cases h
    | _ => exact ⟨rfl, rfl⟩
  | passed _ _ | executed _ _ _ => cases h
  | _ => exact ⟨rfl, rfl⟩

/-- What the execution of a message was answered. -/
def executionOf (messageHash : Bytes32) (trace : List (Event C)) : Log :=
  trace.filterMap fun
    | .executed _ hash e => if hash = messageHash then some e else none
    | _ => none

/-- Rows are inserted at later and later times. -/
def Increasing (m : Handler C) : Prop :=
  m.db.finalMessages.Pairwise fun r r' => r.createdAt < r'.createdAt

instance (m : Handler C) : Decidable (Increasing m) :=
  inferInstanceAs (Decidable (m.db.finalMessages.Pairwise _))

/-- The marked rows come first, and their messages were passed to `executeAndWait` in their order.
The loop holds the message of the first open row. -/
structure InOrder (ethers : Ethers) (trace : List (Event C)) (m : Handler C)
    (front back : List FinalMessageRow) (done : List QueuedMessage) : Prop where
  rows : m.db.finalMessages = front ++ back
  marked : ∀ row ∈ front, ¬ row.isOpen
  opened : ∀ row ∈ back, row.isOpen
  inserted : List.Forall₂ (FinalMessageRow.Stores ethers) m.db.finalMessages
    (trace.filterMap (·.inserts))
  decoded : List.Forall₂ FinalMessageRow.Decodes front done
  holding : ∀ next, m.current.Holding next → ∃ row rest, back = row :: rest ∧ row.Decodes next
  passed : (trace.filterMap (·.passes) = done ∧ ∀ next call, m.current = .executing next call →
      Log.Marked call.log) ∨
    ∃ next call, m.current = .executing next call ∧ ¬ Log.Marked call.log ∧
      trace.filterMap (·.passes) = done ++ [next]

namespace InOrder

variable {front back : List FinalMessageRow} {done : List QueuedMessage}

theorem of_rows_eq (h : InOrder ethers trace m front back done)
    (hrows : m'.db.finalMessages = m.db.finalMessages) (hinserts : e.inserts = none)
    (hholding : ∀ next, m'.current.Holding next →
      ∃ row rest, back = row :: rest ∧ row.Decodes next)
    (hpassed : ((trace ++ [e]).filterMap (·.passes) = done ∧
        ∀ next call, m'.current = .executing next call → Log.Marked call.log) ∨
      ∃ next call, m'.current = .executing next call ∧ ¬ Log.Marked call.log ∧
        (trace ++ [e]).filterMap (·.passes) = done ++ [next]) :
    InOrder ethers (trace ++ [e]) m' front back done where
  rows := hrows.trans h.rows
  marked := h.marked
  opened := h.opened
  inserted := by
    rw [hrows, List.filterMap_append]
    simpa [hinserts] using h.inserted
  decoded := h.decoded
  holding := hholding
  passed := hpassed

/-- The loop finds the first open row. -/
theorem took (h : InOrder ethers trace m front back done) (hincreasing : Increasing m)
    (hrow : row ∈ m.db.finalMessages) (hopen : row.isOpen)
    (hfirst : ∀ r ∈ m.db.finalMessages, r.isOpen → row.createdAt ≤ r.createdAt) :
    ∃ rest, back = row :: rest := by
  have hmem : row ∈ back := by
    rw [h.rows] at hrow
    exact (List.mem_append.mp hrow).resolve_left fun hmem => h.marked row hmem hopen
  cases back with
  | nil => cases hmem
  | cons r rest =>
    rcases List.mem_cons.mp hmem with rfl | hrest
    · exact ⟨rest, rfl⟩
    · rw [Increasing, h.rows, List.pairwise_append, List.pairwise_cons] at hincreasing
      have hlt := hincreasing.2.1.1 row hrest
      have hle := hfirst r (h.rows ▸ List.mem_append_right _ List.mem_cons_self)
        (h.opened r List.mem_cons_self)
      exact absurd hlt (Nat.not_lt.mpr hle)

theorem of_current_eq (h : InOrder ethers trace m front back done)
    (hrows : m'.db.finalMessages = m.db.finalMessages) (hcurrent : m'.current = m.current)
    (hinserts : e.inserts = none) (hpasses : e.passes = none) :
    InOrder ethers (trace ++ [e]) m' front back done := by
  refine h.of_rows_eq hrows hinserts ?_ ?_
  · simpa only [hcurrent] using h.holding
  · simpa [hcurrent, hpasses] using h.passed

/-- The loop holds no message that was passed. -/
theorem of_not_executing (h : InOrder ethers trace m front back done)
    (hexecuting : ∀ next call, m.current = .executing next call → Log.Marked call.log) :
    trace.filterMap (·.passes) = done := by
  rcases h.passed with ⟨hpassed, _⟩ | ⟨next, call, hcurrent, hnot, _⟩
  · exact hpassed
  · exact absurd (hexecuting next call hcurrent) hnot

theorem of_executing (h : InOrder ethers trace m front back done)
    (hcurrent : m.current = .executing next call) (hnot : ¬ Log.Marked call.log) :
    trace.filterMap (·.passes) = done ++ [next] := by
  rcases h.passed with ⟨_, hmarked⟩ | ⟨next', call', hcurrent', _, hpassed⟩
  · exact absurd (hmarked next call hcurrent) hnot
  · cases hcurrent.symm.trans hcurrent'
    exact hpassed

theorem inserts (h : InOrder ethers trace m front back done)
    (hhash : calculateMessageHash ethers.crypto message.toUnsignedMessage = .ok messageHash)
    (hrows : m'.db.finalMessages = m.db.finalMessages ++ [newRow messageHash message now])
    (hcurrent : m'.current = m.current) :
    InOrder ethers (trace ++ [.answered c (told (.insertFinalMessage messageHash message) ())]) m'
      front (back ++ [newRow messageHash message now]) done where
  rows := by rw [hrows, h.rows, List.append_assoc]
  marked := h.marked
  opened := by
    intro row hrow
    rcases List.mem_append.mp hrow with hrow | hrow
    · exact h.opened row hrow
    · cases List.mem_singleton.mp hrow
      exact ⟨rfl, rfl⟩
  inserted := by
    rw [hrows, List.filterMap_append]
    exact List.rel_append h.inserted (.cons ⟨rfl, rfl, hhash⟩ .nil)
  decoded := h.decoded
  holding := by
    intro next hnext
    obtain ⟨row, rest, rfl, hdecodes⟩ := h.holding next (hcurrent ▸ hnext)
    exact ⟨row, rest ++ [_], rfl, hdecodes⟩
  passed := by simpa [hcurrent, Event.passes] using h.passed

theorem marks (h : InOrder ethers trace m front back done) (htidy : Tidy m)
    (hrows : m'.db.finalMessages = m.db.finalMessages.map (markRow next.messageHash data))
    (hcurrent : m.current = .executing next call)
    (hawaits : MessageQueueService.Awaits executor next.message next.messageHash call.log
      (.updateFinalMessage next.messageHash data))
    (hlog : call'.log = call.log ++ [told (.updateFinalMessage next.messageHash data) ()])
    (hcurrent' : m'.current = .executing next call') :
    ∃ row rest, back = row :: rest ∧ InOrder ethers (trace ++
        [.executed i next.messageHash (told (.updateFinalMessage next.messageHash data) ())]) m'
      (front ++ [row.update data]) rest (done ++ [next]) := by
  have hnot : ¬ Log.Marked call.log := hawaits.2.1
  have hmarked : Log.Marked call'.log := hlog ▸ Log.marked_told
  obtain ⟨row, rest, rfl, hdecodes⟩ := h.holding next (.inr ⟨call, hcurrent, hnot⟩)
  refine ⟨row, rest, rfl, ?_⟩
  constructor
  case rows =>
    have hnodup := htidy.nodup
    rw [h.rows] at hnodup
    rw [hrows, h.rows, markRow_append hnodup hdecodes.1, List.append_assoc, List.singleton_append]
  case marked =>
    intro r hr
    rcases List.mem_append.mp hr with hr | hr
    · exact h.marked r hr
    · cases List.mem_singleton.mp hr
      exact ((h.opened row List.mem_cons_self).marked hawaits.marks).closed
  case opened => exact fun r hr => h.opened r (List.mem_cons_of_mem _ hr)
  case inserted =>
    rw [hrows, List.forall₂_map_left_iff, List.filterMap_append]
    simpa [Event.inserts] using h.inserted.imp fun _ _ hstores => hstores.marked
  case decoded => exact List.rel_append h.decoded (.cons hdecodes .nil)
  case holding =>
    rintro next' (heq | ⟨_, heq, hnot'⟩)
    · cases hcurrent'.symm.trans heq
    · cases hcurrent'.symm.trans heq
      exact absurd hmarked hnot'
  case passed =>
    refine .inl ⟨?_, fun next' call'' heq => ?_⟩
    · simpa [Event.passes] using h.of_executing hcurrent hnot
    · cases hcurrent'.symm.trans heq
      exact hmarked

theorem works (h : InOrder ethers trace m front back done) (htidy : Tidy m)
    (hincreasing : Increasing m) (hworks : Works ethers executor m e m') :
    ∃ front back done, InOrder ethers (trace ++ [e]) m' front back done := by
  cases hworks with
  | inserted hhash _ hrows hcurrent => exact ⟨_, _, _, h.inserts hhash hrows hcurrent⟩
  | aside hevent hrows hcurrent =>
    obtain ⟨hinserts, hpasses⟩ := Event.silent_of_aside hevent
    rcases hcurrent with hcurrent | ⟨hnot, hresting⟩
    · exact ⟨_, _, _, h.of_current_eq hrows hcurrent hinserts hpasses⟩
    · have hpassed := h.of_not_executing fun next call hcurrent =>
        by_contra fun hmarked => hnot next (.inr ⟨call, hcurrent, hmarked⟩)
      refine ⟨_, _, _, h.of_rows_eq hrows hinserts ?_ (.inl ⟨by simpa [hpasses] using hpassed, ?_⟩)⟩
      · exact fun next hnext => absurd hnext hresting.not_holding
      · intro next call heq
        rw [heq] at hresting
        exact hresting.elim
  | took hrows hcurrent hrow hopen hfirst hdecodes hcurrent' =>
    obtain ⟨rest, rfl⟩ := h.took hincreasing hrow hopen hfirst
    have hpassed := h.of_not_executing fun next call heq => by cases hcurrent.symm.trans heq
    refine ⟨_, _, _, h.of_rows_eq hrows rfl ?_ (.inl ⟨by simpa [Event.passes] using hpassed, ?_⟩)⟩
    · rintro next (heq | ⟨_, heq, _⟩)
      · cases hcurrent'.symm.trans heq
        exact ⟨_, _, rfl, hdecodes⟩
      · cases hcurrent'.symm.trans heq
    · intro next call heq
      cases hcurrent'.symm.trans heq
  | passed hrows hcurrent hcurrent' =>
    have hpassed := h.of_not_executing fun next call heq => by cases hcurrent.symm.trans heq
    refine ⟨_, _, _, h.of_rows_eq hrows rfl ?_ (.inr ⟨_, _, hcurrent', ?_, ?_⟩)⟩
    · rintro next (heq | ⟨_, heq, _⟩)
      · cases hcurrent'.symm.trans heq
      · cases hcurrent'.symm.trans heq
        exact h.holding _ (.inl hcurrent)
    · simp [Async.Call.begin, Log.Marked]
    · simpa [Event.passes] using hpassed
  | executed hrows hcurrent hawaits hlog hmarked hcurrent' =>
    refine ⟨_, _, _, h.of_rows_eq hrows rfl ?_ ?_⟩
    · rintro next (heq | ⟨_, heq, hnot⟩)
      · cases hcurrent'.symm.trans heq
      · cases hcurrent'.symm.trans heq
        exact h.holding _ (.inr ⟨_, hcurrent, mt hmarked.mpr hnot⟩)
    · rcases h.passed with ⟨hpassed, hbefore⟩ | ⟨_, _, heq, hnot, hpassed⟩
      · refine .inl ⟨by simpa [Event.passes] using hpassed, fun next call heq => ?_⟩
        cases hcurrent'.symm.trans heq
        exact hmarked.mpr (hbefore _ _ hcurrent)
      · cases hcurrent.symm.trans heq
        exact .inr ⟨_, _, hcurrent', mt hmarked.mp hnot, by simpa [Event.passes] using hpassed⟩
  | marked hrows hcurrent hawaits hlog hcurrent' =>
    obtain ⟨row, rest, _, hmarks⟩ := h.marks htidy hrows hcurrent hawaits hlog hcurrent'
    exact ⟨_, _, _, hmarks⟩

theorem initial : InOrder ethers [] (.initial ethers .empty requests : Handler C) [] [] [] where
  rows := rfl
  marked := fun _ h => by cases h
  opened := fun _ h => by cases h
  inserted := .nil
  decoded := .nil
  holding := by simp [Loop.Holding, current, Handler.initial]
  passed := .inl ⟨rfl, fun _ _ h => by cases h⟩

/-- The messages that were passed are the first that were inserted. -/
theorem passed_is (h : InOrder ethers trace m front back done) :
    ∃ inserted, inserted <+: trace.filterMap (·.inserts) ∧
      List.Forall₂ QueuedMessage.Is (trace.filterMap (·.passes)) inserted := by
  have hstores := h.rows ▸ h.inserted
  have hfront := (List.forall₂_take_append _ _ _ hstores.flip).flip
  have hback := (List.forall₂_drop_append _ _ _ hstores.flip).flip
  have hdone := is_of_stores h.decoded hfront
  rcases h.passed with ⟨hpassed, _⟩ | ⟨next, call, hcurrent, hnot, hpassed⟩
  · exact ⟨_, List.take_prefix _ _, hpassed ▸ hdone⟩
  · obtain ⟨row, rest, rfl, hdecodes⟩ := h.holding next (.inr ⟨call, hcurrent, hnot⟩)
    generalize hrest : (trace.filterMap (·.inserts)).drop front.length = later at hback
    cases hback with
    | @cons _ p _ later hrow _ =>
      refine ⟨(trace.filterMap (·.inserts)).take front.length ++ [p], ?_, ?_⟩
      · refine ⟨later, ?_⟩
        rw [List.append_assoc, List.singleton_append, ← hrest, List.take_append_drop]
      · rw [hpassed]
        exact List.rel_append hdone (.cons (hdecodes.is hrow) .nil)

end InOrder

theorem Works.increasing (h : Works ethers executor m e m') (hincreasing : Increasing m') :
    Increasing m := by
  rw [Increasing] at hincreasing ⊢
  cases h with
  | inserted _ _ hrows _ =>
    rw [hrows] at hincreasing
    exact (List.pairwise_append.mp hincreasing).1
  | aside _ hrows _ | took hrows | passed hrows | executed hrows =>
    rwa [hrows] at hincreasing
  | marked hrows =>
    rw [hrows, List.pairwise_map] at hincreasing
    simpa using hincreasing

/-! ## Outcomes -/

/-- The outcome of the execution of the message is what its row is marked with. -/
def RecordsOutcome (executor : Executor) (trace : List (Event C)) (row : FinalMessageRow)
    (next : QueuedMessage) : Prop :=
  ∃ outcome, MessageExecutor.Settles executor next.message (executionOf next.messageHash trace)
    outcome ∧ row.Records outcome

/-- The updates of the tables that an execution makes succeed. -/
def StoresSucceed (_ : Handler C) : Event C → Prop
  | .executed _ _ ⟨q, .error _⟩ => q.writes = false
  | _ => True

/-- What the executions so far were answered. -/
structure Recorded (executor : Executor) (trace : List (Event C)) (m : Handler C) : Prop where
  /-- Before a message is executed there is nothing. -/
  fresh : ∀ messageHash,
    (∀ row ∈ m.db.finalMessages, row.messageHash = messageHash → row.isOpen) →
    (∀ next call, m.current = .executing next call → next.messageHash ≠ messageHash) →
      executionOf messageHash trace = []
  executing : ∀ next call, m.current = .executing next call →
    executionOf next.messageHash trace = call.log ∧ (∀ q e, rejected q e ∈ call.log → q.writes = false) ∧
      (Log.Marked call.log → ∃ row ∈ m.db.finalMessages, row.messageHash = next.messageHash ∧
        ¬ row.isOpen)
  recorded : ∀ row ∈ m.db.finalMessages, ¬ row.isOpen → ∀ next, row.Decodes next →
    RecordsOutcome executor trace row next

theorem executionOf_append {trace' : List (Event C)} : executionOf messageHash (trace ++ trace') =
    executionOf messageHash trace ++ executionOf messageHash trace' :=
  List.filterMap_append

theorem executionOf_of_aside {e : Event C} (h : e.aside) : executionOf messageHash [e] = [] := by
  cases e with
  | executed _ _ _ => cases h
  | _ => rfl

theorem executionOf_executed : executionOf messageHash [(.executed i hash' e : Event C)] =
    if hash' = messageHash then [e] else [] := by
  by_cases h : hash' = messageHash <;> simp [executionOf, h]

theorem RecordsOutcome.append (h : RecordsOutcome executor trace row next) :
    RecordsOutcome executor (trace ++ [e]) row next := by
  obtain ⟨outcome, hsettles, hrecords⟩ := h
  refine ⟨outcome, ?_, hrecords⟩
  rw [executionOf_append]
  exact hsettles.append _

namespace Recorded

variable {next : QueuedMessage} {call call' : ServiceCall Unit} {row : FinalMessageRow}

theorem initial : Recorded executor [] (.initial ethers .empty requests : Handler C) where
  fresh := fun _ _ _ => rfl
  executing := fun _ _ h => by cases h
  recorded := fun _ h => by cases h

/-- The step is not one of an execution, and the loop is as before or does not execute. -/
theorem of_aside (h : Recorded executor trace m) (hexecution : ∀ hash, executionOf hash [e] = [])
    (hrows : m'.db.finalMessages = m.db.finalMessages)
    (hbefore : ∀ next call, m.current = .executing next call →
      m'.current = m.current ∨ Log.Marked call.log)
    (hafter : ∀ next call, m'.current = .executing next call → m'.current = m.current) :
    Recorded executor (trace ++ [e]) m' where
  fresh := by
    intro messageHash hopen hnot
    rw [executionOf_append, hexecution, List.append_nil]
    rw [hrows] at hopen
    refine h.fresh messageHash hopen fun next call heq hhash => ?_
    rcases hbefore next call heq with hcurrent | hmarked
    · exact hnot next call (hcurrent.trans heq) hhash
    · obtain ⟨row, hrow, hrowHash, hclosed⟩ := (h.executing next call heq).2.2 hmarked
      exact hclosed (hopen row hrow (hrowHash.trans hhash))
  executing := by
    intro next call heq
    rw [executionOf_append, hexecution, List.append_nil, hrows]
    exact h.executing next call ((hafter next call heq).symm.trans heq)
  recorded := by
    intro row hrow hclosed next hdecodes
    exact (h.recorded row (hrows ▸ hrow) hclosed next hdecodes).append

theorem inserts (h : Recorded executor trace m)
    (hrows : m'.db.finalMessages = m.db.finalMessages ++ [newRow messageHash message now])
    (hcurrent : m'.current = m.current) :
    Recorded executor
      (trace ++ [.answered c (told (.insertFinalMessage messageHash message) ())]) m' where
  fresh := by
    intro hash hopen hnot
    rw [executionOf_append]
    rw [hcurrent] at hnot
    have hbefore := h.fresh hash (fun row hrow => hopen row (hrows ▸ List.mem_append_left _ hrow)) hnot
    rw [hbefore]
    rfl
  executing := by
    intro next call heq
    obtain ⟨hlog, hwrites, hmarked⟩ := h.executing next call (hcurrent ▸ heq)
    refine ⟨?_, hwrites, fun h => ?_⟩
    · rw [executionOf_append, hlog]
      exact List.append_nil _
    · obtain ⟨row, hrow, hclosed⟩ := hmarked h
      exact ⟨row, hrows ▸ List.mem_append_left _ hrow, hclosed⟩
  recorded := by
    intro row hrow hclosed next hdecodes
    rw [hrows] at hrow
    rcases List.mem_append.mp hrow with hrow | hrow
    · exact (h.recorded row hrow hclosed next hdecodes).append
    · cases List.mem_singleton.mp hrow
      exact absurd ⟨rfl, rfl⟩ hclosed

theorem passes (h : Recorded executor trace m) (htidy : Tidy m)
    (hrows : m'.db.finalMessages = m.db.finalMessages)
    (hcurrent : m.current = .gotNext (.ok (some next)))
    (hcurrent' : m'.current = .executing next (.begin x)) :
    Recorded executor (trace ++ [.passed i next]) m' where
  fresh := by
    intro hash hopen _
    rw [executionOf_append]
    rw [hrows] at hopen
    have hbefore := h.fresh hash hopen fun _ _ heq => by cases hcurrent.symm.trans heq
    rw [hbefore]
    rfl
  executing := by
    intro next' call heq
    cases hcurrent'.symm.trans heq
    refine ⟨?_, by simp [Async.Call.begin], by simp [Async.Call.begin, Log.Marked]⟩
    obtain ⟨row, hrow, hopen, hdecodes⟩ := htidy.holding next (.inl hcurrent)
    have hbefore := h.fresh next.messageHash (fun row' hrow' hhash => ?_) fun _ _ heq => by
      cases hcurrent.symm.trans heq
    · rw [executionOf_append, hbefore]
      rfl
    · cases htidy.eq_of_hash hrow' hrow (hhash.trans hdecodes.1.symm)
      exact hopen
  recorded := by
    intro row hrow hclosed next hdecodes
    exact (h.recorded row (hrows ▸ hrow) hclosed next hdecodes).append

/-- What an execution is answered is added to what it was answered before. -/
theorem executionOf_eq (h : Recorded executor trace m) (hcurrent : m.current = .executing next call)
    (hlog : call'.log = call.log ++ [e]) :
    executionOf next.messageHash (trace ++ [.executed i next.messageHash e]) = call'.log := by
  rw [executionOf_append, executionOf_executed, if_pos rfl, (h.executing next call hcurrent).1, hlog]

theorem writes_of_rejected {r : Except JsError q.Answer} (h : Recorded executor trace m)
    (hcurrent : m.current = .executing next call) (hlog : call'.log = call.log ++ [⟨q, r⟩])
    (hstores : StoresSucceed m (.executed i hash' ⟨q, r⟩)) :
    ∀ q e, rejected q e ∈ call'.log → q.writes = false := by
  intro q' e hmem
  rw [hlog] at hmem
  rcases List.mem_append.mp hmem with hmem | hmem
  · exact (h.executing next call hcurrent).2.1 q' e hmem
  · cases List.mem_singleton.mp hmem
    exact hstores

/-- Nothing but the execution of this message was answered. -/
theorem fresh_of_executed (h : Recorded executor trace m)
    (hcurrent : m.current = .executing next call)
    (hcurrent' : m'.current = .executing next call')
    (hopen : ∀ row ∈ m.db.finalMessages, row.messageHash = messageHash → row.isOpen)
    (hnot : ∀ next call, m'.current = .executing next call → next.messageHash ≠ messageHash) :
    executionOf messageHash (trace ++ [.executed i next.messageHash e]) = [] := by
  have hne := hnot next call' hcurrent'
  rw [executionOf_append, executionOf_executed, if_neg hne, List.append_nil]
  refine h.fresh messageHash hopen fun next' call'' heq => ?_
  cases hcurrent.symm.trans heq
  exact hne

theorem executed {q : Query} {r : Except JsError q.Answer} (h : Recorded executor trace m)
    (hstores : StoresSucceed m (.executed i next.messageHash ⟨q, r⟩))
    (hrows : m'.db.finalMessages = m.db.finalMessages) (hcurrent : m.current = .executing next call)
    (hlog : call'.log = call.log ++ [⟨q, r⟩])
    (hmarked : Log.Marked call'.log ↔ Log.Marked call.log)
    (hcurrent' : m'.current = .executing next call') :
    Recorded executor (trace ++ [.executed i next.messageHash ⟨q, r⟩]) m' where
  fresh := by
    intro hash hopen hnot
    rw [hrows] at hopen
    exact h.fresh_of_executed hcurrent hcurrent' hopen hnot
  executing := by
    intro next' call'' heq
    cases hcurrent'.symm.trans heq
    refine ⟨h.executionOf_eq hcurrent hlog, h.writes_of_rejected hcurrent hlog hstores, fun hm => ?_⟩
    rw [hrows]
    exact (h.executing next call hcurrent).2.2 (hmarked.mp hm)
  recorded := by
    intro row hrow hclosed next hdecodes
    exact (h.recorded row (hrows ▸ hrow) hclosed next hdecodes).append

/-- The outcome of an execution is what it marks its message with. -/
theorem records_of_marks (h : Recorded executor trace m)
    (hcurrent : m.current = .executing next call)
    (hawaits : MessageQueueService.Awaits executor next.message next.messageHash call.log
      (.updateFinalMessage next.messageHash data)) (hopen : row.isOpen) :
    ∃ outcome, MessageExecutor.Settles executor next.message call.log outcome ∧
      (row.update data).Records outcome := by
  obtain ⟨_, _, ⟨transactionRes, hsettles, _, rfl⟩ | ⟨_, e, herror, rfl⟩⟩ := hawaits
  · exact ⟨_, hsettles, by simp [FinalMessageRow.update], by simp [FinalMessageRow.update, hopen.2]⟩
  · rcases herror with hsettles | ⟨q, e', hwrites, hmem⟩
    · exact ⟨_, hsettles, by simp [FinalMessageRow.update, hopen.1], by simp [FinalMessageRow.update]⟩
    · rw [(h.executing next call hcurrent).2.1 q e' hmem] at hwrites
      cases hwrites

theorem marks (h : Recorded executor trace m) (htidy : Tidy m)
    (hrows : m'.db.finalMessages = m.db.finalMessages.map (markRow next.messageHash data))
    (hcurrent : m.current = .executing next call)
    (hawaits : MessageQueueService.Awaits executor next.message next.messageHash call.log
      (.updateFinalMessage next.messageHash data))
    (hlog : call'.log = call.log ++ [told (.updateFinalMessage next.messageHash data) ()])
    (hcurrent' : m'.current = .executing next call') :
    Recorded executor (trace ++
      [.executed i next.messageHash (told (.updateFinalMessage next.messageHash data) ())]) m' := by
  obtain ⟨row, hrow, hopen, hdecodes⟩ := htidy.holding next (.inr ⟨call, hcurrent, hawaits.2.1⟩)
  constructor
  case fresh =>
    intro hash hopen' hnot
    refine h.fresh_of_executed hcurrent hcurrent' (fun r hr hhash => ?_) hnot
    have hr' := hopen' _ (hrows ▸ List.mem_map_of_mem hr) (messageHash_markRow.trans hhash)
    rwa [markRow_of_ne] at hr'
    rintro hnext
    exact hnot next call' hcurrent' (hnext.symm.trans hhash)
  case executing =>
    intro next' call'' heq
    cases hcurrent'.symm.trans heq
    refine ⟨h.executionOf_eq hcurrent hlog,
      h.writes_of_rejected hcurrent hlog
        (show StoresSucceed m (.executed i next.messageHash _) from trivial), fun _ => ?_⟩
    refine ⟨markRow next.messageHash data row, hrows ▸ List.mem_map_of_mem hrow,
      messageHash_markRow.trans hdecodes.1, ?_⟩
    rw [markRow, if_pos hdecodes.1]
    exact (hopen.marked hawaits.marks).closed
  case recorded =>
    intro r hr hclosed next' hdecodes'
    rw [hrows] at hr
    obtain ⟨r, hmem, rfl⟩ := List.mem_map.mp hr
    rw [decodes_markRow] at hdecodes'
    by_cases hhash : r.messageHash = next.messageHash
    · cases htidy.eq_of_hash hmem hrow (hhash.trans hdecodes.1.symm)
      have hnext : next' = next := by
        obtain ⟨hash, message⟩ := next
        obtain ⟨hash', message'⟩ := next'
        cases hdecodes'.1.symm.trans hdecodes.1
        cases hdecodes'.2.symm.trans hdecodes.2
        rfl
      subst hnext
      obtain ⟨outcome, hsettles, hrecords⟩ := h.records_of_marks hcurrent hawaits hopen
      refine ⟨outcome, ?_, by rwa [markRow, if_pos hhash]⟩
      rw [h.executionOf_eq hcurrent hlog, hlog]
      exact hsettles.append _
    · rw [markRow_of_ne hhash] at hclosed ⊢
      exact (h.recorded r hmem hclosed next' hdecodes').append

theorem works (h : Recorded executor trace m) (htidy : Tidy m) (hstores : StoresSucceed m e)
    (hworks : Works ethers executor m e m') : Recorded executor (trace ++ [e]) m' := by
  cases hworks with
  | inserted _ _ hrows hcurrent => exact h.inserts hrows hcurrent
  | aside hevent hrows hcurrent =>
    refine h.of_aside (fun _ => executionOf_of_aside hevent) hrows (fun next call heq => ?_)
      fun next call heq => ?_
    · refine hcurrent.imp_right fun hresting => by_contra fun hnot => ?_
      exact hresting.1 next (.inr ⟨call, heq, hnot⟩)
    · refine hcurrent.resolve_right fun hresting => ?_
      rw [heq] at hresting
      exact hresting.2
  | took hrows hcurrent _ _ _ _ hcurrent' =>
    refine h.of_aside (fun _ => rfl) hrows (fun _ _ heq => ?_) fun _ _ heq => ?_
    · cases hcurrent.symm.trans heq
    · cases hcurrent'.symm.trans heq
  | passed hrows hcurrent hcurrent' => exact h.passes htidy hrows hcurrent hcurrent'
  | executed hrows hcurrent _ hlog hmarked hcurrent' =>
    exact h.executed hstores hrows hcurrent hlog hmarked hcurrent'
  | marked hrows hcurrent hawaits hlog hcurrent' =>
    exact h.marks htidy hrows hcurrent hawaits hlog hcurrent'

end Recorded

variable [DecidableEq C]

/-- In every run with one loop that is started once, where the updates of the tables succeed and
rows are inserted at later and later times: the messages passed to `executeAndWait` are the first of
those that were inserted, in the same order, and the row of each that is not in execution is marked
with its own outcome. -/
theorem fifo
    (hrun : Run (Guarded StoresSucceed (Step wallets executor)) (initial ethers .empty requests)
      trace m)
    (honce : trace.countP (·.isStart) ≤ 1) (hincreasing : Increasing m) :
    (∃ inserted, inserted <+: trace.filterMap (·.inserts) ∧
      List.Forall₂ QueuedMessage.Is (trace.filterMap (·.passes)) inserted) ∧
    ∃ done, (trace.filterMap (·.passes) = done ∨
        ∃ next call, .executing next call ∈ m.loops ∧ trace.filterMap (·.passes) = done ++ [next]) ∧
      ∀ next ∈ done, ∃ row ∈ m.db.finalMessages, row.messageHash = next.messageHash ∧
        RecordsOutcome executor trace row next := by
  have hrun' := startsAlone_of_once hrun (by simpa [initial] using honce)
  have horder : Increasing m → ∃ front back done, InOrder ethers trace m front back done := by
    refine invariant_of_tidy (I := fun trace m => Increasing m → ∃ front back done,
      InOrder ethers trace m front back done) (fun _ _ h => h.1) ?_ hrun'
      fun _ => ⟨_, _, _, .initial⟩
    intro trace m e m' _ htidy h hmoves hincreasing
    have hbefore := hmoves.works.increasing hincreasing
    obtain ⟨front, back, done, horder⟩ := h hbefore
    exact horder.works htidy hbefore hmoves.works
  have hrecorded : Recorded executor trace m :=
    invariant_of_tidy (I := Recorded executor) (fun _ _ h => h.1)
      (fun _ _ _ _ hC htidy h hmoves => h.works htidy hC.2 hmoves.works) hrun' .initial
  obtain ⟨front, back, done, horder⟩ := horder hincreasing
  refine ⟨horder.passed_is, done, ?_, fun next hnext => ?_⟩
  · rcases horder.passed with ⟨hpassed, _⟩ | ⟨next, call, hcurrent, _, hpassed⟩
    · exact .inl hpassed
    · exact .inr ⟨next, call, mem_of_current hcurrent (fun h => by cases h), hpassed⟩
  · obtain ⟨i, hi, rfl⟩ := List.getElem_of_mem hnext
    have hlength := horder.decoded.length_eq
    have hdecodes := horder.decoded.get (hlength ▸ hi) hi
    refine ⟨front[i], horder.rows ▸ List.mem_append_left _ (List.getElem_mem _), hdecodes.1, ?_⟩
    exact hrecorded.recorded _ (horder.rows ▸ List.mem_append_left _ (List.getElem_mem _))
      (horder.marked _ (List.getElem_mem _)) _ hdecodes

end

end Handler

namespace Sample

instance (m : Handler C) (e : Handler.Event C) : Decidable (m.StoresSucceed e) :=
  match e with
  | .executed _ _ ⟨q, .error _⟩ => inferInstanceAs (Decidable (q.writes = false))
  | .executed _ _ ⟨_, .ok _⟩ | .answered _ _ | .settled _ | .start | .stop | .stopLater | .resolved _
  | .gotNext _ _ | .wentOn _ | .passed _ _ | .exited _ => .isTrue trivial

/-- The next message of the wallet. -/
def nextUnsigned : UnsignedMessage := { unsigned with nonce := .number 1 }

def nextPacked : Bytes :=
  packAddress wallet ++ packAddress wallet ++ packUint256 0 ++ packUint256 dataHash ++
    packUint256 1 ++ packUint256 1 ++ packAddress 0 ++ packUint256 1000000 ++ packUint256 0

def nextHash : Bytes32 := 0x1fc36e1d26af0a2773955461c9074cbf1f266aae0ce9d95b1aadfc06692f47fb

/-- The signature of the manager for the next message. -/
def nextByManager : Signature where
  r := 0xb6849e9dd06f5af208f6f7075ec6713583fd2d51f8a781f3700d57532ac13331
  s := 0x329c93aa82afc2b2a76526ca23be74bf03c94fd402d9ff5dc7e52836029066b7

def queueCrypto : Crypto :=
  { crypto with keccak256 := fun bs => if bs = nextPacked then nextHash else crypto.keccak256 bs }

def queueEthers : Ethers := { ethers with crypto := queueCrypto }

def queueExecutor : Executor := { executor with ethers := queueEthers }

/-- Two clients of the queue, one for each message. -/
def bothAdded : Bool → Request
  | false => .add (signed byManager.bytes)
  | true => .add { nextUnsigned with signature := hexlify nextByManager.bytes }

/-- The second message is inserted while the first one is executed. -/
def twoMessages : List (Handler.Turn Bool) :=
  [.client false, .start] ++ List.replicate 4 (.loop 0) ++ [.client true] ++
    List.replicate 22 (.loop 0)

set_option maxRecDepth 20000 in
theorem worked_once : (Handler.turns queueExecutor accepting Handler.StoresSucceed twoMessages
    (.initial queueEthers .empty bothAdded)).map (fun p => (p.1.countP (·.isStart),
      (p.1.filterMap (·.passes)).map (·.messageHash), decide p.2.Increasing)) =
        some (1, [messageHash, nextHash], true) := by decide

end Sample

namespace Handler

theorem fifo_sample : ∃ (trace : List (Event Bool)) (m : Handler Bool),
    Run (Guarded StoresSucceed (Step Sample.chain.wallets Sample.queueExecutor))
      (initial Sample.queueEthers .empty Sample.bothAdded) trace m ∧
    (trace.filterMap (·.passes)).map (·.messageHash) = [Sample.messageHash, Sample.nextHash] ∧
    ∃ inserted, inserted <+: trace.filterMap (·.inserts) ∧
      List.Forall₂ QueuedMessage.Is (trace.filterMap (·.passes)) inserted := by
  obtain ⟨⟨trace, m⟩, hworked, heq⟩ := Option.map_eq_some_iff.mp Sample.worked_once
  simp only [Prod.mk.injEq, decide_eq_true_eq] at heq
  obtain ⟨honce, hpassed, hincreasing⟩ := heq
  have hrun := run_turns Sample.answers_accepting hworked
  exact ⟨trace, m, hrun, hpassed, (fifo hrun honce.le hincreasing).1⟩

end Handler

end UniversalLogin
