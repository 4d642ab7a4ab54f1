import UniversalLogin.Relayer.QueueRows

/-!
# Errors and transactions

An execution marks its message with an error whatever has failed. So an error means that no
transaction was sent as long as nothing fails after one was sent: no query is rejected, and the hook
does not throw at the data, which are those that the client has signed.
-/

namespace UniversalLogin

open Async Labelled

/-- The loop executes the message with this hash, and its transaction was sent. -/
def Loop.HasSent (messageHash : Bytes32) : Loop → Prop
  | executing next call => next.messageHash = messageHash ∧ Log.Sent call.log
  | _ => False

instance (messageHash : Bytes32) (loop : Loop) : Decidable (loop.HasSent messageHash) :=
  decidable_of_iff ((match loop with
    | .executing next call => decide (next.messageHash = messageHash ∧ Log.Sent call.log)
    | _ => false : Bool) = true) (by cases loop <;> simp [Loop.HasSent])

namespace Handler

section
variable {C : Type} {wallets : Address → Option Storage} {executor : Executor} {ethers : Ethers}
  {requests : C → Request} {m m' : Handler C}

/-- The hash of the message whose transaction was sent. -/
def Event.sends : Event C → Option Bytes32
  | executed _ messageHash ⟨.sendTransaction _, .ok _⟩ => some messageHash
  | _ => none

theorem Event.sends_of_aside {e : Event C} (h : e.aside) : e.sends = none := by
  cases e with
  | executed _ _ _ => cases h
  | _ => rfl

/-- Nothing fails after a transaction was sent. -/
def SentGoesThrough (m : Handler C) : Event C → Prop
  | .executed _ messageHash ⟨_, .error _⟩ => ∀ loop ∈ m.loops, ¬ loop.HasSent messageHash
  | .executed _ _ ⟨.sendTransaction _, .ok transactionRes⟩ =>
    ¬ MessageHandler.HookThrows transactionRes
  | _ => True

instance (m : Handler C) (e : Event C) : Decidable (SentGoesThrough m e) :=
  decidable_of_iff ((match e with
    | .executed _ messageHash ⟨_, .error _⟩ => m.loops.all fun loop => ¬ loop.HasSent messageHash
    | .executed _ _ ⟨.sendTransaction _, .ok transactionRes⟩ =>
      decide (¬ MessageHandler.HookThrows transactionRes)
    | _ => true : Bool) = true) (by
    cases e with
    | executed _ _ qr =>
      obtain ⟨q, r⟩ := qr
      cases r <;> cases q <;> simp [SentGoesThrough]
    | _ => simp [SentGoesThrough])

/-- The answers of an execution under which it does not fail after its transaction was sent. -/
structure GoesThrough (log : Log) : Prop where
  answered : ∀ front q e, log = front ++ [rejected q e] → ¬ Log.Sent front
  hook : ∀ transactionReq transactionRes,
    told (.sendTransaction transactionReq) transactionRes ∈ log →
      ¬ MessageHandler.HookThrows transactionRes

theorem GoesThrough.not_failed (h : GoesThrough log) (hsent : log.Sent) :
    ¬ MessageQueueService.FailedAt log := by
  rintro (hnot | ⟨front, q, e, hlog, hfront⟩ | ⟨_, _, hmem, hthrows⟩)
  · exact hnot hsent
  · exact h.answered front q e hlog hfront
  · exact h.hook _ _ hmem hthrows

theorem GoesThrough.append {q : Query} {r : Except JsError q.Answer} (h : GoesThrough log)
    (hcurrent : m.current = .executing next call) (hlog : call.log = log)
    (hgoes : SentGoesThrough m (.executed i next.messageHash ⟨q, r⟩)) :
    GoesThrough (log ++ [⟨q, r⟩]) := by
  subst hlog
  constructor
  · intro front q' e heq hsent
    obtain ⟨hfront, hlast⟩ := List.append_inj' heq rfl
    cases hlast
    subst hfront
    exact hgoes _ (mem_of_current hcurrent fun h => by cases h) ⟨rfl, hsent⟩
  · intro transactionReq transactionRes hmem
    rcases List.mem_append.mp hmem with hmem | hmem
    · exact h.hook _ _ hmem
    · cases List.mem_singleton.mp hmem
      exact hgoes

/-- What is known of the messages whose transactions were sent. -/
structure SentOnce (trace : List (Event C)) (m : Handler C) : Prop where
  sent : ∀ e ∈ trace, ∀ messageHash, e.sends = some messageHash →
    ∃ row ∈ m.db.finalMessages, row.messageHash = messageHash ∧ row.error = none ∧
      (row.isOpen → ∃ next call, m.current = .executing next call ∧
        next.messageHash = messageHash ∧ Log.Sent call.log ∧ ¬ Log.Marked call.log)
  through : ∀ next call, m.current = .executing next call → GoesThrough call.log

namespace SentOnce

theorem initial : SentOnce [] (.initial ethers .empty requests : Handler C) where
  sent := by simp
  through := fun _ _ h => by cases h

theorem of_rows_eq (h : SentOnce trace m) (hrows : m'.db.finalMessages = m.db.finalMessages)
    (hsends : e.sends = none) (hcurrent : ∀ next call, m.current = .executing next call →
      ¬ Log.Marked call.log → m'.current = m.current)
    (hthrough : ∀ next call, m'.current = .executing next call → GoesThrough call.log) :
    SentOnce (trace ++ [e]) m' := by
  refine ⟨fun e' he' messageHash hsent => ?_, hthrough⟩
  rcases List.mem_append.mp he' with he' | he'
  · obtain ⟨row, hrow, hhash, herror, hopen⟩ := h.sent e' he' messageHash hsent
    refine ⟨row, hrows ▸ hrow, hhash, herror, fun hrowOpen => ?_⟩
    obtain ⟨next, call, hexecuting, hnext, hlog, hmarked⟩ := hopen hrowOpen
    exact ⟨next, call, (hcurrent next call hexecuting hmarked).trans hexecuting, hnext, hlog, hmarked⟩
  · cases List.mem_singleton.mp he'
    cases hsends.symm.trans hsent

theorem executed {q : Query} {r : Except JsError q.Answer} (h : SentOnce trace m) (htidy : Tidy m)
    (hrows : m'.db.finalMessages = m.db.finalMessages)
    (hcurrent : m.current = .executing next call) (hlog : call'.log = call.log ++ [⟨q, r⟩])
    (hawaits : MessageQueueService.Awaits executor next.message next.messageHash call.log q)
    (hmarked : Log.Marked call'.log ↔ Log.Marked call.log)
    (hcurrent' : m'.current = .executing next call')
    (hgoes : SentGoesThrough m (.executed i next.messageHash ⟨q, r⟩)) :
    SentOnce (trace ++ [.executed i next.messageHash ⟨q, r⟩]) m' := by
  have hsentLog : Log.Sent call.log → Log.Sent call'.log := by
    rintro ⟨transactionReq, transactionRes, hmem⟩
    exact ⟨_, _, hlog ▸ List.mem_append_left _ hmem⟩
  refine ⟨fun e he messageHash hsent => ?_, fun next' call'' hexecuting => ?_⟩
  · rcases List.mem_append.mp he with he | he
    · obtain ⟨row, hrow, hhash, herror, hopen⟩ := h.sent e he messageHash hsent
      refine ⟨row, hrows ▸ hrow, hhash, herror, fun hrowOpen => ?_⟩
      obtain ⟨_, _, hexecuting, hnext, hsentBefore, hnot⟩ := hopen hrowOpen
      cases hcurrent.symm.trans hexecuting
      exact ⟨next, call', hcurrent', hnext, hsentLog hsentBefore, mt hmarked.mp hnot⟩
    · -- the transaction of the message is sent
      cases List.mem_singleton.mp he
      cases q with
      | sendTransaction transactionReq =>
        cases r with
        | error e => cases hsent
        | ok transactionRes =>
          cases hsent
          obtain ⟨_, _, hnot⟩ := hawaits
          obtain ⟨row, hrow, hopen, hdecodes⟩ := htidy.holding next (.inr ⟨call, hcurrent, hnot⟩)
          refine ⟨row, hrows ▸ hrow, hdecodes.1, hopen.2, fun _ => ?_⟩
          refine ⟨next, call', hcurrent', rfl, ⟨transactionReq, transactionRes, ?_⟩, mt hmarked.mp hnot⟩
          simp [hlog]
      | _ => cases r <;> cases hsent
  · cases hcurrent'.symm.trans hexecuting
    rw [hlog]
    exact (h.through next call hcurrent).append hcurrent rfl hgoes

theorem marked (h : SentOnce trace m) (htidy : Tidy m)
    (hrows : m'.db.finalMessages = m.db.finalMessages.map (markRow next.messageHash data))
    (hcurrent : m.current = .executing next call)
    (hlog : call'.log = call.log ++ [told (.updateFinalMessage next.messageHash data) ()])
    (hawaits : MessageQueueService.Awaits executor next.message next.messageHash call.log
      (.updateFinalMessage next.messageHash data))
    (hcurrent' : m'.current = .executing next call')
    (hgoes : SentGoesThrough m
      (.executed i next.messageHash (told (.updateFinalMessage next.messageHash data) ()))) :
    SentOnce (trace ++
      [.executed i next.messageHash (told (.updateFinalMessage next.messageHash data) ())]) m' := by
  refine ⟨fun e he messageHash hsent => ?_, fun next' call'' hexecuting => ?_⟩
  · rcases List.mem_append.mp he with he | he
    · obtain ⟨row, hrow, hhash, herror, hopen⟩ := h.sent e he messageHash hsent
      refine ⟨markRow next.messageHash data row, hrows ▸ List.mem_map_of_mem hrow,
        messageHash_markRow.trans hhash, ?_⟩
      obtain ⟨row', hrow', hopen', hdecodes⟩ :=
        htidy.holding next (.inr ⟨call, hcurrent, hawaits.2.1⟩)
      by_cases hnext : row.messageHash = next.messageHash
      · -- the row is the one that is marked, and its transaction was sent
        cases htidy.eq_of_hash hrow hrow' (hnext.trans hdecodes.1.symm)
        obtain ⟨_, _, hexecuting, _, hsentBefore, _⟩ := hopen hopen'
        cases hcurrent.symm.trans hexecuting
        rw [markRow, if_pos hnext]
        obtain ⟨_, _, ⟨transactionRes, _, _, rfl⟩ | ⟨hfailed, _⟩⟩ := hawaits
        · exact ⟨herror, fun hopen => by cases hopen.1⟩
        · exact absurd hfailed ((h.through next call hcurrent).not_failed hsentBefore)
      · rw [markRow_of_ne hnext]
        refine ⟨herror, fun hrowOpen => ?_⟩
        obtain ⟨_, _, hexecuting, hsame, _⟩ := hopen hrowOpen
        cases hcurrent.symm.trans hexecuting
        exact absurd (hhash.trans hsame.symm) hnext
    · cases List.mem_singleton.mp he
      cases hsent
  · cases hcurrent'.symm.trans hexecuting
    rw [hlog]
    exact (h.through next call hcurrent).append hcurrent rfl hgoes

theorem works (h : SentOnce trace m) (htidy : Tidy m) (hgoes : SentGoesThrough m e)
    (hworks : Works ethers executor m e m') : SentOnce (trace ++ [e]) m' := by
  cases hworks with
  | inserted _ _ hrows hcurrent =>
    refine ⟨fun e' he' messageHash hsent => ?_, by simpa only [hcurrent] using h.through⟩
    rcases List.mem_append.mp he' with he' | he'
    · obtain ⟨row, hrow, hrest⟩ := h.sent e' he' messageHash hsent
      exact ⟨row, hrows ▸ List.mem_append_left _ hrow, by simpa only [hcurrent] using hrest⟩
    · cases List.mem_singleton.mp he'
      cases hsent
  | aside hevent hrows hcurrent =>
    refine h.of_rows_eq hrows (Event.sends_of_aside hevent) (fun next call hexecuting hnot => ?_)
      fun next call hexecuting => ?_
    · exact hcurrent.resolve_right fun h => h.1 next (.inr ⟨call, hexecuting, hnot⟩)
    · rcases hcurrent with hcurrent | ⟨_, hresting⟩
      · exact h.through next call (hcurrent ▸ hexecuting)
      · rw [hexecuting] at hresting
        exact hresting.elim
  | took hrows hcurrent _ _ _ _ hcurrent' =>
    refine h.of_rows_eq hrows rfl (fun _ _ hexecuting => ?_) fun _ _ hexecuting => ?_
    · cases hcurrent.symm.trans hexecuting
    · cases hcurrent'.symm.trans hexecuting
  | passed hrows hcurrent hcurrent' =>
    refine h.of_rows_eq hrows rfl (fun _ _ hexecuting => ?_) fun _ _ hexecuting => ?_
    · cases hcurrent.symm.trans hexecuting
    · cases hcurrent'.symm.trans hexecuting
      exact ⟨fun _ _ _ heq => by simp [Async.Call.begin] at heq, fun _ _ hmem => by cases hmem⟩
  | executed hrows hcurrent hawaits hlog hmarked hcurrent' =>
    exact h.executed htidy hrows hcurrent hlog hawaits hmarked hcurrent' hgoes
  | marked hrows hcurrent hawaits hlog hcurrent' =>
    exact h.marked htidy hrows hcurrent hlog hawaits hcurrent' hgoes

end SentOnce

variable [DecidableEq C]

/-- In every run in which no loop is started beside another and nothing fails after a transaction
was sent, no transaction was sent for a message that is marked with an error. -/
theorem error_not_sent
    (hrun : Run (Guarded (fun m e => StartsAlone m e ∧ SentGoesThrough m e) (Step wallets executor))
      (initial ethers .empty requests) trace m)
    (hrow : row ∈ m.db.finalMessages) (herror : row.error ≠ none) :
    ∀ e ∈ trace, e.sends ≠ some row.messageHash := by
  have htidy := tidy_of_run (fun _ _ h => h.1) hrun
  have hsent : SentOnce trace m := by
    refine invariant_of_tidy (fun _ _ h => h.1) ?_ hrun .initial
    exact fun _ _ _ _ hC htidy h hmoves => h.works htidy hC.2 hmoves.works
  intro e he hsends
  obtain ⟨row', hrow', hhash, hnone, _⟩ := hsent.sent e he _ hsends
  cases htidy.eq_of_hash hrow' hrow hhash
  exact herror hnone

end

/-! ## A hook that throws

The client signs a call of `addKey` of the wallet whose data end after the selector. The wallet
executes the message, and the hook cannot decode the key.
-/

end Handler

namespace Sample

/-- The message whose data are the selector of `addKey` alone. -/
def shortAddKey (_ : Unit) : Request :=
  .add { signed byManager.bytes with data := .string (hexlify (BigEndian.encode 4 0xa2d39bdb)) }

set_option maxRecDepth 20000 in
/-- A chain of which nothing is known refuses the message. -/
theorem refused_marked : ((Handler.turns executor (Query.answer chain.wallets)
      (fun m e => m.StartsAlone e ∧ m.SentGoesThrough e) oneMessage
      (.initial ethers .empty added)).map fun p =>
    p.2.db.finalMessages.map fun row => row.error.isSome) = some [true] := by decide

set_option maxRecDepth 20000 in
theorem shortAddKey_marked : ((Handler.turns executor accepting (fun _ _ => True) oneMessage
      (.initial ethers .empty shortAddKey)).map fun p =>
    (p.1.any fun e => e.sends = some 0, p.2.db.finalMessages.map fun row =>
      (row.messageHash, row.error.isSome))) = some (true, [(0, true)]) := by decide

end Sample

namespace Handler

theorem error_not_sent_sample : ∃ trace m row,
    Run (Guarded (fun m e => StartsAlone m e ∧ SentGoesThrough m e) (Step Sample.chain.wallets
      Sample.executor)) (initial Sample.ethers .empty Sample.added) trace m ∧
    row ∈ m.db.finalMessages ∧ row.error ≠ none ∧ ∀ e ∈ trace, e.sends ≠ some row.messageHash := by
  obtain ⟨⟨trace, m⟩, hturns, hmarked⟩ := Option.map_eq_some_iff.mp Sample.refused_marked
  have hrun := run_turns Query.answers_answer hturns
  obtain ⟨row, hrow, herror⟩ := List.map_eq_singleton_iff.mp hmarked
  change m.db.finalMessages = [row] at hrow
  have hmem : row ∈ m.db.finalMessages := by simp [hrow]
  have hne : row.error ≠ none := Option.isSome_iff_ne_none.mp herror
  exact ⟨trace, m, row, hrun, hmem, hne, error_not_sent hrun hmem hne⟩

/-- The transaction of the message was sent, and the message is marked with an error. -/
theorem error_sent : ∃ trace m, Run (Step Sample.chain.wallets Sample.executor)
      (initial Sample.ethers .empty Sample.shortAddKey) trace m ∧
    ∃ row ∈ m.db.finalMessages, row.error ≠ none ∧ ∃ e ∈ trace, e.sends = some row.messageHash := by
  obtain ⟨⟨trace, m⟩, hturns, hmarked⟩ := Option.map_eq_some_iff.mp Sample.shortAddKey_marked
  obtain ⟨hsends, hrows⟩ := Prod.mk.inj hmarked
  refine ⟨trace, m, (run_turns Sample.answers_accepting hturns).of_guarded, ?_⟩
  obtain ⟨row, hrow, heq⟩ := List.map_eq_singleton_iff.mp hrows
  obtain ⟨hhash, herror⟩ := Prod.mk.inj heq
  obtain ⟨e, he, hsent⟩ := List.any_eq_true.mp hsends
  change m.db.finalMessages = [row] at hrow
  exact ⟨row, by simp [hrow], Option.isSome_iff_ne_none.mp herror, e, he, by simpa [hhash] using hsent⟩

end Handler

end UniversalLogin
