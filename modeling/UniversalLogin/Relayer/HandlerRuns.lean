import UniversalLogin.Relayer.Executions

/-!
# Runs of the handler

What the code of every call and of every execution does in a run, whatever the others do (`Coded`).
While `start` is called only if the queue is running or no loop is active, the last loop is the only
one that may be active; `Moves` says once what a step can do to the tables and to that loop.
-/

namespace UniversalLogin

open Async Labelled

namespace Request

variable {ethers : Ethers}

/-- What a call has been answered when it awaits a query. -/
def Awaits (ethers : Ethers) : Request → Log → Query → Prop
  | handleMessage message => PendingMessages.Awaits ethers message (messageHashOf ethers message)
  | getStatus _ => fun _ q => q.writes = false
  | add message => fun _ q =>
    calculateMessageHash ethers.crypto message.toUnsignedMessage = .ok (messageHashOf ethers message) ∧
      q = .insertFinalMessage (messageHashOf ethers message) message

/-- What a call has been answered when it returns. -/
def Returns : Request → Log → Response → Prop
  | getStatus messageHash => fun log response =>
    (∃ pairs, response = .status none ∧ log = [told (.selectMessage messageHash) none,
      told (.selectSignatureKeyPairs messageHash) pairs]) ∨
    ∃ front row pairs required queueRow,
      log = Log.status front messageHash row pairs required ++
        [told (.selectFinalMessage messageHash) queueRow] ∧
      response = .status (some (MessageHandler.merge
        ⟨none, pairs.map (·.signature), pairs.length, required, row.transactionHash⟩
        (queueRow.map (·.status))))
  | add message => fun log response => ∃ messageHash, response = .added messageHash ∧
    told (.insertFinalMessage messageHash message) () ∈ log
  | handleMessage _ => fun _ _ => True

theorem Awaits.not_deletes {request : Request} (h : request.Awaits ethers log q) :
    q.deletes = false := by
  cases request with
  | handleMessage message => exact PendingMessages.Awaits.not_deletes h
  | getStatus messageHash =>
    cases q with
    | deleteMessage _ | deleteSignatureKeyPairs _ => cases h
    | _ => rfl
  | add message =>
    obtain ⟨_, rfl⟩ := h
    rfl

theorem Awaits.not_marks {request : Request}
    (h : request.Awaits ethers log (.updateFinalMessage messageHash data)) : False := by
  cases request with
  | handleMessage message | getStatus messageHash => cases h
  | add message => cases h.2

theorem Awaits.not_updates {request : Request}
    (h : request.Awaits ethers log (.updateMessage messageHash transactionHash)) : False := by
  cases request with
  | handleMessage message | getStatus messageHash => cases h
  | add message => cases h.2

/-- A message is inserted without a transaction. -/
theorem Awaits.transactionHash_eq {request : Request}
    (h : request.Awaits ethers log (.insertMessage row)) : row.transactionHash = none := by
  cases request with
  | handleMessage message => rw [h.1]
  | getStatus messageHash => cases h
  | add message => cases h.2

/-- What is handed over to the queue has a hash. -/
theorem Awaits.hash_eq {request : Request}
    (h : request.Awaits ethers log (.insertFinalMessage messageHash finalMessage)) :
    calculateMessageHash ethers.crypto finalMessage.toUnsignedMessage = .ok messageHash := by
  cases request with
  | handleMessage message =>
    obtain ⟨rfl, _, _, _, _, hhash⟩ := h
    exact hhash
  | getStatus messageHash => cases h
  | add message =>
    obtain ⟨hhash, heq⟩ := h
    cases heq
    exact hhash

theorem follows_serve {request : Request} : Follows (fun _ _ _ => True) (request.Awaits ethers)
    (fun _ _ => True) request.Returns [] (request.serve ethers) := by
  cases request with
  | handleMessage message =>
    exact follows_bind.mpr ((PendingMessages.follows_add messageHashOf_eq).mono
      (fun _ _ _ h => h) (fun _ _ h => h) (fun _ _ h => h) fun _ _ _ => trivial)
  | getStatus messageHash =>
    have hread : ∀ (log : Log) (q : Query), q.writes = false →
        (Request.getStatus messageHash).Awaits ethers log q := fun _ _ h => h
    refine follows_bind.mpr (follows_bind.mpr
      (follows_isPresent hread (fun _ _ _ _ _ => trivial) fun found pairs _ _ => ?_))
    split
    · next habsent =>
      have hnone : found = none := by simpa using (Bool.or_eq_false_iff.mp habsent).1
      subst hnone
      exact .inl ⟨pairs, rfl, rfl⟩
    · refine follows_bind.mpr (follows_getStatus hread (fun _ _ _ _ _ => trivial)
        (fun _ => trivial) fun row pairs required _ _ _ => ?_)
      refine follows_bind.mpr (follows_bind.mpr
        (follows_read hread (fun _ _ _ _ _ => trivial) rfl fun queueRow _ => ?_))
      exact .inr ⟨_, row, pairs, required, queueRow, rfl, rfl⟩
  | add message =>
    refine follows_bind.mpr (follows_bind.mpr (follows_lift (fun _ _ => trivial) fun hash hhash => ?_))
    cases messageHashOf_eq hash hhash
    refine follows_bind.mpr ((follows_query (.insertFinalMessage _ _)).mpr ?_)
    exact ⟨⟨hhash, rfl⟩, fun _ _ => ⟨_, rfl, List.mem_append_right _ List.mem_cons_self⟩, fun _ _ => trivial⟩

end Request

/-- What becomes of a loop that goes on without a message. -/
theorem Loop.goOn_eq_some {loop : Loop} (h : loop.goOn state = some (state', loop')) :
    (loop = .gotNext (.ok none) ∧ state = .stopping ∧ state' = .stopped ∧ loop' = .returned) ∨
      state' = state ∧
        ((loop = .gotNext (.ok none) ∧ state ≠ .stopping ∧ loop' = .sleeping) ∨
        (loop = .sleeping ∨ ∃ next log, loop = .executing next ⟨log, .done (.ok ())⟩) ∧
          (loop' = .returned ∨ loop' = .gettingNext)) := by
  rw [Loop.goOn.eq_def] at h
  split at h
  · split at h
    · next hstate =>
      cases h
      exact .inl ⟨rfl, hstate, rfl, rfl⟩
    · next hstate =>
      cases h
      exact .inr ⟨rfl, .inl ⟨rfl, hstate, rfl⟩⟩
  · refine .inr ?_
    split at h
    · cases h
      exact ⟨rfl, .inr ⟨.inr ⟨_, _, rfl⟩, .inl rfl⟩⟩
    · cases h
      exact ⟨rfl, .inr ⟨.inr ⟨_, _, rfl⟩, .inr rfl⟩⟩
  · refine .inr ?_
    split at h
    · cases h
      exact ⟨rfl, .inr ⟨.inl rfl, .inl rfl⟩⟩
    · cases h
      exact ⟨rfl, .inr ⟨.inl rfl, .inr rfl⟩⟩
  · cases h

theorem Loop.active_of_goOn {loop : Loop} (h : loop.goOn state = some s) : loop ≠ .returned := by
  rintro rfl
  cases h

namespace Handler

section
variable {C : Type} {wallets : Address → Option Storage} {executor : Executor} {ethers : Ethers}
  {requests : C → Request} {tables : Database} {m m' : Handler C}

/-- The calls and the executions do what their code says. -/
structure Coded (ethers : Ethers) (executor : Executor) (requests : C → Request) (m : Handler C) :
    Prop where
  calls : ∀ c, (m.calls c).Follows (fun _ _ _ => True) ((requests c).Awaits ethers)
    (fun _ _ => True) (requests c).Returns
  executions : ∀ next call, Loop.executing next call ∈ m.loops →
    call.Follows (fun _ _ _ => True)
      (MessageQueueService.Awaits executor next.message next.messageHash)
      (fun log _ => ¬ Log.Marked log) fun log _ => Log.Marked log

namespace Coded

/-- A loop takes the place of another. -/
theorem set (h : Coded ethers executor requests m) (hcalls : m'.calls = m.calls)
    (hloops : m'.loops = m.loops.set i loop) (hloop : ∀ next call, loop = .executing next call →
      call.Follows (fun _ _ _ => True)
        (MessageQueueService.Awaits executor next.message next.messageHash)
        (fun log _ => ¬ Log.Marked log) fun log _ => Log.Marked log) :
    Coded ethers executor requests m' := by
  refine ⟨by simpa only [hcalls] using h.calls, fun next call hmem => ?_⟩
  rw [hloops] at hmem
  rcases List.mem_or_eq_of_mem_set hmem with hmem | heq
  · exact h.executions next call hmem
  · exact hloop next call heq.symm

theorem initial : Coded ethers executor requests (.initial ethers tables requests) :=
  ⟨fun _ => Request.follows_serve, fun _ _ h => by cases h⟩

variable [DecidableEq C]

theorem step (h : Coded ethers executor requests m) (hstep : Step wallets executor m e m') :
    Coded ethers executor requests m' := by
  cases hstep with
  | answered _ hcall =>
    refine ⟨?_, h.executions⟩
    rw [Function.forall_update_iff m.calls fun c call => call.Follows _ ((requests c).Awaits ethers)
      _ (requests c).Returns]
    exact ⟨(h.calls _).step hcall trivial, fun c _ => h.calls c⟩
  | settled | startAgain | stop | stopLater | resolved | exited => exact ⟨h.calls, h.executions⟩
  | start =>
    refine ⟨h.calls, fun next call hmem => ?_⟩
    rcases List.mem_append.mp hmem with hmem | hmem
    · exact h.executions next call hmem
    · cases List.mem_singleton.mp hmem
  | gotNext => exact h.set rfl rfl fun _ _ heq => by cases heq
  | wentOn _ _ hgoes =>
    refine h.set rfl rfl fun next call heq => ?_
    subst heq
    rcases Loop.goOn_eq_some hgoes with ⟨_, _, _, h⟩ | ⟨_, ⟨_, _, h⟩ | ⟨_, h | h⟩⟩ <;> cases h
  | passed =>
    refine h.set rfl rfl fun next call heq => ?_
    cases heq
    exact MessageQueueService.follows_execute
  | executed _ hloop hcall =>
    refine h.set rfl rfl fun next call heq => ?_
    cases heq
    exact (h.executions _ _ (List.mem_of_getElem? hloop)).step hcall trivial

theorem of_run (hrun : Run (Step wallets executor) (.initial ethers tables requests) trace m) :
    Coded ethers executor requests m :=
  hrun.invariant (fun _ _ _ h hstep => h.step hstep) .initial

end Coded

/-! ## The clients -/

/-- What a step does to the tables and to the calls of the clients. -/
inductive Serves (wallets : Address → Option Storage) (ethers : Ethers) (executor : Executor)
    (requests : C → Request) (m : Handler C) : Event C → Handler C → Prop
  | client (hawaits : (requests c).Awaits ethers (m.calls c).log e.1)
      (hcall : Async.Call.Step (Query.Answers wallets) m.db (m.calls c) e m₁.db (m₁.calls c))
      (hothers : ∀ c', c' ≠ c → m₁.calls c' = m.calls c') :
    Serves wallets ethers executor requests m (.answered c e) m₁
  | executed (hcalls : m₁.calls = m.calls) (hloop : .executing next call ∈ m.loops)
      (hawaits : MessageQueueService.Awaits executor next.message next.messageHash call.log q)
      (hanswer : q.Answers wallets m.db r m₁.db) :
    Serves wallets ethers executor requests m (.executed i next.messageHash ⟨q, r⟩) m₁
  | idle (hcalls : m₁.calls = m.calls) (hdb : m₁.db = m.db) :
    Serves wallets ethers executor requests m e m₁

theorem Serves.grows (h : Serves wallets ethers executor requests m e m') : m.db.Grows m'.db := by
  cases h with
  | client hawaits hcall => exact hcall.answers_eq.grows hawaits.not_deletes
  | executed _ _ hawaits hanswer => exact hanswer.grows hawaits.not_deletes
  | idle _ hdb => exact hdb ▸ .refl _

theorem serves [DecidableEq C] (hcoded : Coded ethers executor requests m)
    (hstep : Step wallets executor m e m') : Serves wallets ethers executor requests m e m' := by
  cases hstep with
  | answered _ hcall =>
    refine .client ((hcoded.calls _).awaited_of_pending hcall.pending) ?_ fun c' hne => ?_
    · simpa using hcall
    · exact Function.update_of_ne hne _ _
  | executed _ hloop hcall =>
    have hmem := List.mem_of_getElem? hloop
    exact .executed rfl hmem ((hcoded.executions _ _ hmem).awaited_of_pending hcall.pending)
      hcall.answers_eq
  | _ => exact .idle rfl rfl

theorem Serves.knows (h : Serves wallets ethers executor requests m e m')
    (hknows : ∀ c, Knows m.db (m.calls c)) : ∀ c, Knows m'.db (m'.calls c) := by
  have hgrows := h.grows
  intro c
  cases h with
  | @client c' e _ hawaits hcall hothers =>
    by_cases hc : c = c'
    · subst hc
      exact (hknows c).step hcall hgrows
    · rw [hothers c hc]
      exact (hknows c).grows hgrows
  | executed hcalls | idle hcalls =>
    rw [hcalls]
    exact (hknows c).grows hgrows

/-- What the clients were answered holds of the tables after every run. -/
theorem knows_of_run [DecidableEq C]
    (hrun : Run (Step wallets executor) (initial ethers tables requests) trace m) :
    ∀ c, Knows m.db (m.calls c) := by
  refine (hrun.invariant (I := fun m => Coded ethers executor requests m ∧
    ∀ c, Knows m.db (m.calls c)) ?_ ⟨.initial, fun _ _ h => by cases h⟩).2
  intro m e m' ⟨hcoded, hknows⟩ hstep
  exact ⟨hcoded.step hstep, (serves hcoded hstep).knows hknows⟩

/-! ## One loop at a time -/

instance (loop : Loop) : Decidable (loop = .returned) := by
  cases loop with
  | returned => exact .isTrue rfl
  | _ => exact .isFalse fun h => by cases h

/-- `start` is called only if the queue is running or no loop is active. -/
def StartsAlone (m : Handler C) : Event C → Prop
  | .start => m.state = .running ∨ ∀ loop ∈ m.loops, loop = .returned
  | _ => True

instance (m : Handler C) (e : Event C) : Decidable (StartsAlone m e) := by
  cases e with
  | start => exact inferInstanceAs (Decidable (_ ∨ ∀ loop ∈ m.loops, loop = .returned))
  | _ => exact .isTrue trivial

/-- The loop that was started last. -/
def current (m : Handler C) : Loop := m.loops.getLast?.getD .returned

/-- No loop is active but the last. -/
def Alone (m : Handler C) : Prop := ∀ loop ∈ m.loops.dropLast, loop = .returned

theorem current_eq (h : m.loops = rest ++ [loop]) : m.current = loop := by
  rw [current, h, List.getLast?_append]
  rfl

theorem mem_of_current (h : m.current = loop) (hactive : loop ≠ .returned) : loop ∈ m.loops := by
  rw [current] at h
  cases hlast : m.loops.getLast? with
  | none =>
    rw [hlast] at h
    exact absurd h.symm hactive
  | some loop' =>
    rw [hlast] at h
    cases h
    exact List.mem_of_getLast? hlast

theorem alone_of_eq (h : m.loops = rest ++ [loop]) (hrest : ∀ loop ∈ rest, loop = .returned) :
    m.Alone := by
  rw [Alone, h, List.dropLast_concat]
  exact hrest

/-- An active loop is the last. -/
theorem Alone.last (h : m.Alone) (hloop : m.loops[i]? = some loop) (hactive : loop ≠ .returned) :
    ∃ rest, m.loops = rest ++ [loop] ∧ i = rest.length ∧ ∀ loop ∈ rest, loop = .returned := by
  have hne : m.loops ≠ [] := by
    intro hnil
    rw [hnil] at hloop
    cases hloop
  have hlast : m.loops.dropLast ++ [m.loops.getLast hne] = m.loops := List.dropLast_append_getLast hne
  rw [← hlast] at hloop
  rcases Nat.lt_trichotomy i m.loops.dropLast.length with hlt | heq | hgt
  · rw [List.getElem?_append_left hlt] at hloop
    exact absurd (h loop (List.mem_of_getElem? hloop)) hactive
  · subst heq
    rw [List.getElem?_concat_length] at hloop
    cases hloop
    exact ⟨_, hlast.symm, rfl, h⟩
  · rw [List.getElem?_eq_none (by simpa using hgt)] at hloop
    cases hloop

theorem Alone.current_of_mem (h : m.Alone) (hloop : loop ∈ m.loops) (hactive : loop ≠ .returned) :
    m.current = loop := by
  obtain ⟨i, hi⟩ := List.getElem?_of_mem hloop
  obtain ⟨rest, heq, _, _⟩ := h.last hi hactive
  exact current_eq heq

theorem Alone.current_of_active {i : Nat} (h : m.Alone) (hloop : m.loops[i]? = some loop)
    (hactive : loop ≠ .returned) : m.current = loop := by
  obtain ⟨rest, heq, _, _⟩ := h.last hloop hactive
  exact current_eq heq

/-- The last loop is replaced. -/
theorem Alone.set (h : m.Alone) (hloop : m.loops[i]? = some loop) (hactive : loop ≠ .returned)
    (hloops : m'.loops = m.loops.set i loop') : m'.current = loop' ∧ m'.Alone := by
  obtain ⟨rest, heq, rfl, hrest⟩ := h.last hloop hactive
  have heq' : m'.loops = rest ++ [loop'] := by
    rw [hloops, heq, List.set_append_right _ _ le_rfl, Nat.sub_self, List.set_cons_zero]
  exact ⟨current_eq heq', alone_of_eq heq' hrest⟩

/-- The event says nothing of the tables or the loops. -/
def Event.idle : Event C → Bool
  | settled _ | start | stop | stopLater | resolved _ | exited _ => true
  | _ => false

/-- What a step does to the tables and to the current loop. -/
inductive Moves (wallets : Address → Option Storage) (ethers : Ethers) (executor : Executor)
    (requests : C → Request) (m : Handler C) : Event C → Handler C → Prop
  | client (hawaits : (requests c).Awaits ethers (m.calls c).log q)
      (hanswer : q.Answers wallets m.db r m₁.db) (hcurrent : m₁.current = m.current) :
    Moves wallets ethers executor requests m (.answered c ⟨q, r⟩) m₁
  | idle (hidle : e.idle) (hdb : m₁.db = m.db) (hcurrent : m₁.current = m.current) :
    Moves wallets ethers executor requests m e m₁
  | started (hdb : m₁.db = m.db) (hreturned : m.current = .returned)
      (hcurrent : m₁.current = .gettingNext) :
    Moves wallets ethers executor requests m .start m₁
  | gotNext (hdb : m₁.db = m.db) (hquery : Query.Answers wallets .selectNextFinalMessage m.db r m.db)
      (hcurrent : m.current = .gettingNext)
      (hcurrent' : m₁.current = .gotNext (MessageQueueSQLStore.nextOf r)) :
    Moves wallets ethers executor requests m (.gotNext i (MessageQueueSQLStore.nextOf r)) m₁
  | wentOn (hdb : m₁.db = m.db) (hgoes : m.current.goOn m.state = some (m₁.state, m₁.current))
      (hmarked : ∀ next call, m.current = .executing next call → Log.Marked call.log) :
    Moves wallets ethers executor requests m (.wentOn i) m₁
  | passed (hdb : m₁.db = m.db) (hcurrent : m.current = .gotNext (.ok (some next)))
      (hcurrent' : m₁.current = .executing next
        (.begin (MessageQueueService.execute executor next.message next.messageHash))) :
    Moves wallets ethers executor requests m (.passed i next) m₁
  | executed (hcurrent : m.current = .executing next call)
      (hawaits : MessageQueueService.Awaits executor next.message next.messageHash call.log e.1)
      (hcall : Async.Call.Step (Query.Answers wallets) m.db call e m₁.db call')
      (hcurrent' : m₁.current = .executing next call') :
    Moves wallets ethers executor requests m (.executed i next.messageHash e) m₁

variable [DecidableEq C]

theorem moves (hcoded : Coded ethers executor requests m) (halone : m.Alone)
    (hstarts : m.StartsAlone e) (hstep : Step wallets executor m e m') :
    Moves wallets ethers executor requests m e m' ∧ m'.Alone := by
  cases hstep with
  | answered _ hcall =>
    exact ⟨.client ((hcoded.calls _).awaited_of_pending hcall.pending) hcall.answers_eq rfl, halone⟩
  | settled | startAgain | stop | stopLater | resolved | exited => exact ⟨.idle rfl rfl rfl, halone⟩
  | start _ hstate =>
    have hreturned := hstarts.resolve_left hstate
    refine ⟨.started rfl ?_ (current_eq rfl), alone_of_eq rfl hreturned⟩
    rw [current]
    cases hlast : m.loops.getLast? with
    | none => rfl
    | some loop => exact hreturned loop (List.mem_of_getLast? hlast)
  | gotNext _ hloop hquery =>
    have hactive : Loop.gettingNext ≠ .returned := fun h => by cases h
    exact ⟨.gotNext rfl hquery (halone.current_of_active hloop hactive)
      (halone.set hloop hactive rfl).1, (halone.set hloop hactive rfl).2⟩
  | wentOn _ hloop hgoes =>
    have hactive := Loop.active_of_goOn hgoes
    have hcurrent := halone.current_of_active hloop hactive
    refine ⟨.wentOn rfl ((congrArg _ hcurrent).trans ?_) fun next call heq => ?_,
      (halone.set hloop hactive rfl).2⟩
    · exact hgoes.trans (congrArg (fun l => some (_, l)) (halone.set hloop hactive rfl).1.symm)
    · cases hcurrent.symm.trans heq
      rcases Loop.goOn_eq_some hgoes with ⟨h, _⟩ | ⟨_, ⟨h, _⟩ | ⟨h | ⟨_, _, h⟩, _⟩⟩ <;> cases h
      exact (hcoded.executions _ _ (List.mem_of_getElem? hloop)).of_ok rfl
  | passed _ hloop =>
    have hactive : ∀ next, Loop.gotNext next ≠ .returned := fun _ h => by cases h
    exact ⟨.passed rfl (halone.current_of_active hloop (hactive _))
      (halone.set hloop (hactive _) rfl).1, (halone.set hloop (hactive _) rfl).2⟩
  | executed _ hloop hcall =>
    have hactive : ∀ next call, Loop.executing next call ≠ .returned := fun _ _ h => by cases h
    refine ⟨.executed (halone.current_of_active hloop (hactive _ _)) ?_ hcall
      (halone.set hloop (hactive _ _) rfl).1, (halone.set hloop (hactive _ _) rfl).2⟩
    exact (hcoded.executions _ _ (List.mem_of_getElem? hloop)).awaited_of_pending hcall.pending

/-- An invariant of the runs in which no loop is started beside another: it is enough that every
move keeps it. -/
theorem invariant_of_moves {C' : Handler C → Event C → Prop} {I : List (Event C) → Handler C → Prop}
    (hstarts : ∀ m e, C' m e → m.StartsAlone e)
    (hkeep : ∀ trace m e m', C' m e → I trace m →
      Moves wallets ethers executor requests m e m' → I (trace ++ [e]) m')
    (hrun : Run (Guarded C' (Step wallets executor)) (initial ethers tables requests) trace m)
    (hinitial : I [] (initial ethers tables requests)) : I trace m := by
  refine (hrun.history (I := fun trace m => I trace m ∧ Coded ethers executor requests m ∧
    m.Alone) ?_ ⟨hinitial, .initial, fun _ h => by cases h⟩).1
  rintro trace m e m' ⟨hinv, hcoded, halone⟩ ⟨hC, hstep⟩
  obtain ⟨hmoves, halone'⟩ := moves hcoded halone (hstarts m e hC) hstep
  exact ⟨hkeep trace m e m' hC hinv hmoves, hcoded.step hstep, halone'⟩

theorem alone_of_run {C' : Handler C → Event C → Prop} (hstarts : ∀ m e, C' m e → m.StartsAlone e)
    (hrun : Run (Guarded C' (Step wallets executor)) (initial ethers tables requests) trace m) :
    m.Alone := by
  refine (hrun.invariant (I := fun m => Coded ethers executor requests m ∧ m.Alone) ?_
    ⟨.initial, fun _ h => by cases h⟩).2
  rintro m e m' ⟨hcoded, halone⟩ ⟨hC, hstep⟩
  exact ⟨hcoded.step hstep, (moves hcoded halone (hstarts m e hC) hstep).2⟩

/-! ## A loop that is started once -/

def Event.isStart : Event C → Bool
  | start => true
  | _ => false

theorem length_loops_le (hrun : Run (Step wallets executor) m trace m') :
    m'.loops.length ≤ m.loops.length + trace.countP (·.isStart) := by
  refine hrun.history (I := fun trace m' => m'.loops.length ≤
    m.loops.length + trace.countP (·.isStart)) ?_ (Nat.le_add_right _ _)
  intro trace m₁ e m₂ h hstep
  rw [List.countP_append, ← Nat.add_assoc]
  cases hstep with
  | start =>
    rw [List.length_append]
    exact Nat.add_le_add h le_rfl
  | gotNext | wentOn | passed | executed =>
    rw [List.length_set]
    exact h.trans (Nat.le_add_right _ _)
  | _ => exact h.trans (Nat.le_add_right _ _)

/-- A loop that is started once is started alone. -/
theorem startsAlone_of_once {C' : Handler C → Event C → Prop}
    (hrun : Run (Guarded C' (Step wallets executor)) m trace m')
    (honce : m.loops.length + trace.countP (·.isStart) ≤ 1) :
    Run (Guarded (fun m e => m.StartsAlone e ∧ C' m e) (Step wallets executor)) m trace m' := by
  induction hrun with
  | nil => exact .nil
  | @snoc trace m₁ e m₂ hrun hstep ih =>
    rw [List.countP_append] at honce
    refine .snoc (ih (by omega)) ⟨⟨?_, hstep.1⟩, hstep.2⟩
    cases e with
    | start =>
      have hlength := length_loops_le hrun.of_guarded
      have hcount : [(Event.start : Event C)].countP (·.isStart) = 1 := rfl
      have hnil : m₁.loops = [] := List.length_eq_zero_iff.mp (by omega)
      exact .inr fun loop h => by simp [hnil] at h
    | _ => trivial

theorem once_alone (honce : m.loops.length + trace.countP (·.isStart) ≤ 1)
    (hrun : Run (Step wallets executor) m trace m') :
    Run (Guarded StartsAlone (Step wallets executor)) m trace m' := by
  have hrun' : Run (Guarded (fun _ _ => True) (Step wallets executor)) m trace m' :=
    hrun.mono fun _ _ _ hstep => ⟨trivial, hstep⟩
  exact (startsAlone_of_once hrun' honce).mono fun _ _ _ hstep => ⟨hstep.1.1, hstep.2⟩

end

end Handler

end UniversalLogin
