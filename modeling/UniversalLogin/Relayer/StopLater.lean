import UniversalLogin.Relayer.QueueRows

/-!
# Stopping the queue

A queue that was told to stop later stops when its loop goes on after it has found no open row. The
row of a message that was added before is open until it is marked, so the loop finds it, unless it
has read the table before the message was added and has not gone on since.
-/

namespace UniversalLogin

open Async Labelled

theorem isOpen_of_markRow {row : FinalMessageRow} (h : (markRow messageHash data row).isOpen) :
    row.isOpen := by
  rw [markRow] at h
  split at h
  · exact ⟨(Option.or_eq_none_iff.mp h.1).2, (Option.or_eq_none_iff.mp h.2).2⟩
  · exact h

namespace Handler

section
variable {C : Type} {wallets : Address → Option Storage} {executor : Executor} {ethers : Ethers}
  {requests : C → Request} {m m' : Handler C}

/-- A call that has put the message into the queue has been resolved. -/
def Added (trace : List (Event C)) (m : Handler C) (messageHash : Bytes32) : Prop :=
  ∃ c message, .settled c ∈ trace ∧
    told (.insertFinalMessage messageHash message) () ∈ (m.calls c).log

/-- A loop has found no message and has not gone on, and one that was added is open. -/
def Overlooked (trace : List (Event C)) (m : Handler C) : Prop :=
  .gotNext (.ok none) ∈ m.loops ∧
    ∃ row ∈ m.db.finalMessages, row.isOpen ∧ Added trace m row.messageHash

/-- As long as one of the messages is open, the queue has not stopped and is not about to. -/
structure Draining (hashes : Bytes32 → Prop) (m : Handler C) : Prop where
  queued : ∀ messageHash, hashes messageHash →
    ∃ row ∈ m.db.finalMessages, row.messageHash = messageHash
  running : ∀ row ∈ m.db.finalMessages, row.isOpen → hashes row.messageHash →
    m.state ≠ .stopped ∧ m.current ≠ .gotNext (.ok none)

/-- What a step does to the state of the queue. -/
theorem state_of_step [DecidableEq C] (hstep : Step wallets executor m e m') :
    m'.state = m.state ∨ m'.state ≠ .stopped ∨ e = .stop ∨
      .gotNext (.ok none) ∈ m.loops := by
  cases hstep with
  | start => exact .inr (.inl fun h => by cases h)
  | stopLater => exact .inr (.inl fun h => by cases h)
  | stop => exact .inr (.inr (.inl rfl))
  | wentOn _ hloop hgoes =>
    rcases Loop.goOn_eq_some hgoes with ⟨rfl, _⟩ | ⟨hstate, _⟩
    · exact .inr (.inr (.inr (List.mem_of_getElem? hloop)))
    · exact .inl hstate
  | _ => exact .inl rfl

/-- What a step leaves of the rows of the queue. -/
theorem Works.rows (h : Works ethers executor m e m') :
    (∀ row ∈ m.db.finalMessages, ∃ row' ∈ m'.db.finalMessages,
      row'.messageHash = row.messageHash) ∧
    ∀ row ∈ m'.db.finalMessages, row.isOpen →
      (∃ row' ∈ m.db.finalMessages, row'.isOpen ∧ row'.messageHash = row.messageHash) ∨
        ∀ r ∈ m.db.finalMessages, r.messageHash ≠ row.messageHash := by
  cases h with
  | inserted _ hnew hrows _ =>
    rw [hrows]
    refine ⟨fun row hrow => ⟨row, List.mem_append_left _ hrow, rfl⟩, fun row hrow hopen => ?_⟩
    rcases List.mem_append.mp hrow with hrow | hrow
    · exact .inl ⟨row, hrow, hopen, rfl⟩
    · cases List.mem_singleton.mp hrow
      exact .inr hnew
  | aside _ hrows _ | took hrows | passed hrows | executed hrows =>
    rw [hrows]
    exact ⟨fun row hrow => ⟨row, hrow, rfl⟩, fun row hrow hopen => .inl ⟨row, hrow, hopen, rfl⟩⟩
  | marked hrows =>
    rw [hrows]
    refine ⟨fun row hrow => ⟨_, List.mem_map_of_mem hrow, messageHash_markRow⟩, ?_⟩
    intro row hrow hopen
    obtain ⟨row', hrow', rfl⟩ := List.mem_map.mp hrow
    exact .inl ⟨row', hrow', isOpen_of_markRow hopen, messageHash_markRow.symm⟩

/-- A loop that has found no message has just read that no row is open. -/
theorem Moves.found_none (h : Moves wallets ethers executor requests m e m') :
    m'.current = m.current ∨ m'.current ≠ .gotNext (.ok none) ∨
      ∀ row ∈ m'.db.finalMessages, ¬ row.isOpen := by
  cases h with
  | client _ _ hcurrent | idle _ _ hcurrent => exact .inl hcurrent
  | started _ _ hcurrent | passed _ _ hcurrent | executed _ _ _ hcurrent =>
    exact .inr (.inl fun h => by cases hcurrent.symm.trans h)
  | wentOn _ hgoes =>
    refine .inr (.inl fun h => ?_)
    rcases Loop.goOn_eq_some hgoes with ⟨_, _, _, h'⟩ | ⟨_, ⟨_, _, h'⟩ | ⟨_, h' | h'⟩⟩ <;>
      cases h'.symm.trans h
  | @gotNext r _ _ hdb hquery _ hcurrent =>
    by_cases hr : MessageQueueSQLStore.nextOf r = .ok none
    · cases MessageQueueSQLStore.eq_of_nextOf_eq_none hr
      refine .inr (.inr fun row hrow hopen => ?_)
      obtain ⟨_, hnext, _⟩ := hquery.1 row (hdb ▸ hrow) hopen
      cases hnext
    · exact .inr (.inl fun h => hr (Loop.gotNext.inj (hcurrent.symm.trans h)))

variable [DecidableEq C]

theorem Draining.step {hashes : Bytes32 → Prop} (h : Draining hashes m) (halone : m.Alone)
    (hmoves : Moves wallets ethers executor requests m e m')
    (hstep : Step wallets executor m e m') (hstop : e ≠ .stop) : Draining hashes m' := by
  obtain ⟨hqueued, hopen⟩ := hmoves.works.rows
  refine ⟨fun messageHash hhash => ?_, fun row hrow hrowOpen hhash => ?_⟩
  · obtain ⟨row, hrow, rfl⟩ := h.queued messageHash hhash
    exact hqueued row hrow
  · have hbefore := (hopen row hrow hrowOpen).resolve_right fun hnew => by
      obtain ⟨r, hr, hrHash⟩ := h.queued _ hhash
      exact hnew r hr hrHash
    obtain ⟨row', hrow', hopen', heq⟩ := hbefore
    obtain ⟨hrunning, hfound⟩ := h.running row' hrow' hopen' (heq ▸ hhash)
    constructor
    · rcases state_of_step hstep with hstate | hstate | hstate | hloop
      · rwa [hstate]
      · exact hstate
      · exact absurd hstate hstop
      · exact absurd (halone.current_of_mem hloop fun h => by cases h) hfound
    · rcases hmoves.found_none with hcurrent | hcurrent | hnone
      · rwa [hcurrent]
      · exact hcurrent
      · exact absurd hrowOpen (hnone row hrow)

/-- What is kept until the queue is stopped at once. -/
theorem draining_of_run {hashes : Bytes32 → Prop}
    (hrun : Run (Guarded StartsAlone (Step wallets executor)) m trace m') (hstop : .stop ∉ trace)
    (hcoded : Coded ethers executor requests m) (halone : m.Alone) (h : Draining hashes m) :
    Draining hashes m' := by
  refine (hrun.history (I := fun trace m => .stop ∉ trace → Coded ethers executor requests m ∧
    m.Alone ∧ Draining hashes m) ?_ (fun _ => ⟨hcoded, halone, h⟩) hstop).2.2
  intro trace m e m' hkept ⟨hstarts, hstep⟩ hstop
  obtain ⟨hcoded, halone, h⟩ := hkept (mt (List.mem_append_left _) hstop)
  obtain ⟨hmoves, halone'⟩ := moves hcoded halone hstarts hstep
  refine ⟨hcoded.step hstep, halone', h.step halone hmoves hstep ?_⟩
  rintro rfl
  exact hstop (List.mem_append_right _ List.mem_cons_self)

/-- In every run in which a loop is started at most once and `stop` is not called after `stopLater`:
when the call of `stopLater` is resolved, the messages that were added before it are marked, unless
one of them was overlooked. -/
theorem drained
    (hbefore : Run (Step wallets executor) (initial ethers .empty requests) trace m)
    (hcall : Step wallets executor m .stopLater m₁)
    (hafter : Run (Step wallets executor) m₁ trace' m₂)
    (hresolved : Step wallets executor m₂ (.resolved m.stopLaters.length) m')
    (honce : (trace ++ trace').countP (·.isStart) ≤ 1) (hstop : .stop ∉ trace')
    (hfound : ¬ Overlooked trace m) (hadded : Added trace m messageHash) :
    ∃ row ∈ m'.db.finalMessages, row.messageHash = messageHash ∧
      (row.transactionHash ≠ none ∨ row.error ≠ none) := by
  rw [List.countP_append] at honce
  have hlength := length_loops_le hbefore
  have hnil : (initial ethers .empty requests : Handler C).loops.length = 0 := rfl
  have hcoded := Coded.of_run hbefore
  have halone := alone_of_run (fun _ _ h => h) (once_alone (by omega) hbefore)
  have hknows := knows_of_run hbefore
  obtain ⟨hstate, hloops, hdb⟩ : m₁.state = .stopping ∧ m₁.loops = m.loops ∧ m₁.db = m.db := by
    cases hcall
    exact ⟨rfl, rfl, rfl⟩
  have hdraining : Draining (Added trace m) m₁ := by
    refine ⟨?_, fun row hrow hopen hhash => ⟨by simp [hstate], fun h => hfound ?_⟩⟩
    · rintro messageHash ⟨c, message, _, htold⟩
      exact hdb ▸ hknows c _ htold
    · have hloop := mem_of_current h fun h => by cases h
      exact ⟨hloops ▸ hloop, row, hdb ▸ hrow, hopen, hhash⟩
  have hrun' := once_alone (by rw [hloops]; omega) hafter
  have hdrained := draining_of_run hrun' hstop (hcoded.step hcall)
    (moves (e := .stopLater) hcoded halone trivial hcall).2 hdraining
  -- the queue has stopped
  obtain ⟨hstopped, hdb'⟩ : m₂.state = .stopped ∧ m'.db = m₂.db := by
    cases hresolved with
    | resolved _ _ hstate => exact ⟨hstate, rfl⟩
  obtain ⟨row, hrow, rfl⟩ := hdrained.queued messageHash hadded
  refine ⟨row, hdb' ▸ hrow, rfl, ?_⟩
  by_contra hnot
  have hopen : row.isOpen := ⟨not_not.mp (not_or.mp hnot).1, not_not.mp (not_or.mp hnot).2⟩
  exact (hdrained.running row hrow hopen hadded).1 hstopped

end

/-! ## A message that is drained, and one that is overlooked -/

def Event.isStop : Event C → Bool
  | stop => true
  | _ => false

theorem Event.not_mem_of_isStop {trace : List (Event C)} (h : trace.any (·.isStop) = false) :
    .stop ∉ trace := fun hmem => by simpa [isStop] using List.any_eq_false.mp h _ hmem

def Event.isSettled : Event Unit → Bool
  | settled _ => true
  | _ => false

theorem Event.mem_of_isSettled {trace : List (Event Unit)} (h : trace.any (·.isSettled) = true) :
    .settled () ∈ trace := by
  obtain ⟨e, he, hsettled⟩ := List.any_eq_true.mp h
  cases e with
  | settled => exact he
  | _ => cases hsettled

end Handler

/-- The hash of the message that was put into the queue. -/
def Log.insertedHash (log : Log) : Option Bytes32 :=
  log.findSome? fun
    | ⟨.insertFinalMessage messageHash _, .ok _⟩ => some messageHash
    | _ => none

theorem Log.mem_of_insertedHash {log : Log} (h : log.insertedHash = some messageHash) :
    ∃ message, told (.insertFinalMessage messageHash message) () ∈ log := by
  obtain ⟨⟨q, r⟩, hmem, heq⟩ := List.exists_of_findSome?_eq_some h
  cases r with
  | error e => cases q <;> cases heq
  | ok a =>
    cases q with
    | insertFinalMessage _ message =>
      cases heq
      exact ⟨message, hmem⟩
    | _ => cases heq

namespace Sample

/-- The message is added and then found. -/
def addedFirst : List (Handler.Turn Unit) := [.client (), .client (), .start, .loop 0]

/-- The message is added when the table has been read. -/
def addedTooLate : List (Handler.Turn Unit) := [.start, .loop 0, .client (), .client ()]

/-- The queue is told to stop later, and the call is resolved. -/
def stoppedLater (before after : List (Handler.Turn Unit)) : Option
    ((List (Handler.Event Unit) × Handler Unit) × (Handler.Event Unit × Handler Unit) ×
      (List (Handler.Event Unit) × Handler Unit) × (Handler.Event Unit × Handler Unit)) := do
  let p ← Handler.turns executor accepting (fun _ _ => True) before (.initial ethers .empty added)
  let q ← Handler.turn executor accepting p.2 .stopLater
  let p' ← Handler.turns executor accepting (fun _ _ => True) after q.2
  let q' ← Handler.turn executor accepting p'.2 (.resolve 0)
  return (p, q, p', q')

def foundNone : Loop → Bool
  | .gotNext (.ok none) => true
  | _ => false

/-- The message was added, and the queue was started once and not stopped at once. -/
def regular (p : List (Handler.Event Unit) × Handler Unit)
    (p' : List (Handler.Event Unit) × Handler Unit) : Bool :=
  !p.2.exited && !p'.2.exited && p.2.stopLaters.isEmpty && (p.1 ++ p'.1).countP (·.isStart) == 1 &&
    !p'.1.any (·.isStop) && p.1.any (·.isSettled) &&
    Log.insertedHash (p.2.calls ()).log == some messageHash

/-- Whether the run is a regular one, whether the loop has found no message, and which rows are open
in the end. -/
def observed (p : List (Handler.Event Unit) × Handler Unit)
    (p' : List (Handler.Event Unit) × Handler Unit) (m' : Handler Unit) :
    Bool × Bool × List (Bytes32 × Bool) :=
  (regular p p', p.2.loops.any foundNone,
    m'.db.finalMessages.map fun row => (row.messageHash, decide row.isOpen))

set_option maxRecDepth 20000 in
theorem addedFirst_observed :
    (stoppedLater addedFirst (List.replicate 12 (.loop 0))).map
      (fun t => observed t.1 t.2.2.1 t.2.2.2.2) =
    some (true, false, [(messageHash, false)]) := by decide

set_option maxRecDepth 20000 in
theorem addedTooLate_observed :
    (stoppedLater addedTooLate [.loop 0]).map (fun t => observed t.1 t.2.2.1 t.2.2.2.2) =
      some (true, true, [(messageHash, true)]) := by decide

end Sample

namespace Handler

theorem runs_of_observed {before after : List (Turn Unit)}
    (h : (Sample.stoppedLater before after).map
        (fun t => Sample.observed t.1 t.2.2.1 t.2.2.2.2) =
      some (true, found, rows)) :
    ∃ trace m m₁ trace' m₂ m',
      Run (Step Sample.chain.wallets Sample.executor)
        (initial Sample.ethers .empty Sample.added) trace m ∧
      Step Sample.chain.wallets Sample.executor m .stopLater m₁ ∧
      Run (Step Sample.chain.wallets Sample.executor) m₁ trace' m₂ ∧
      Step Sample.chain.wallets Sample.executor m₂ (.resolved m.stopLaters.length) m' ∧
      (trace ++ trace').countP (·.isStart) ≤ 1 ∧ .stop ∉ trace' ∧
      Added trace m Sample.messageHash ∧ m.loops.any Sample.foundNone = found ∧
      m'.db.finalMessages.map (fun row => (row.messageHash, decide row.isOpen)) = rows := by
  obtain ⟨t, hlater, hobserved⟩ := Option.map_eq_some_iff.mp h
  simp only [Sample.stoppedLater, Option.bind_eq_bind, Option.bind_eq_some_iff] at hlater
  obtain ⟨⟨trace, m⟩, hbefore, ⟨e, m₁⟩, hcall, ⟨trace', m₂⟩, hafter, ⟨e', m'⟩, hresolve, heq⟩ := hlater
  cases Option.some.inj heq
  simp only [Sample.observed, Sample.regular, Prod.mk.injEq, Bool.and_eq_true, beq_iff_eq,
    Bool.not_eq_true', List.isEmpty_iff_length_eq_zero] at hobserved
  obtain ⟨⟨⟨⟨⟨⟨⟨hexited, hexited'⟩, hlength⟩, hstarts⟩, hstops⟩, hsettled⟩, hinserted⟩, hfound,
    hrows⟩ := hobserved
  have hrun := (run_turns Sample.answers_accepting hbefore).of_guarded
  have hrun' := (run_turns Sample.answers_accepting hafter).of_guarded
  have hstep := step_of_turn Sample.answers_accepting hexited hcall
  have hstep' := step_of_turn Sample.answers_accepting hexited' hresolve
  obtain rfl : e = .stopLater := by cases hcall; rfl
  obtain rfl : e' = .resolved m.stopLaters.length := by
    rw [hlength]
    simp only [turn] at hresolve
    split at hresolve
    · cases hresolve
      rfl
    · cases hresolve
  obtain ⟨message, hmem⟩ := Log.mem_of_insertedHash hinserted
  exact ⟨trace, m, m₁, trace', m₂, m', hrun, hstep, hrun', hstep', hstarts.le,
    Event.not_mem_of_isStop hstops, ⟨(), message, Event.mem_of_isSettled hsettled, hmem⟩, hfound, hrows⟩

theorem drained_sample : ∃ trace, ∃ m m' : Handler Unit,
    Run (Step Sample.chain.wallets Sample.executor)
      (initial Sample.ethers .empty Sample.added) trace m ∧
    Added trace m Sample.messageHash ∧
    ∃ row ∈ m'.db.finalMessages, row.messageHash = Sample.messageHash ∧
      (row.transactionHash ≠ none ∨ row.error ≠ none) := by
  obtain ⟨trace, m, m₁, trace', m₂, m', hrun, hstep, hrun', hstep', hstarts, hstop, hadded, hfound, _⟩ :=
    runs_of_observed Sample.addedFirst_observed
  refine ⟨trace, m, m', hrun, hadded, drained hrun hstep hrun' hstep' hstarts hstop ?_ hadded⟩
  rintro ⟨hmem, _⟩
  simpa [Sample.foundNone] using List.any_eq_false.mp hfound _ hmem

/-- The queue has stopped, and the message that was added before it was told so is open. -/
theorem not_drained : ∃ trace m m₁ trace' m₂ m',
    Run (Step Sample.chain.wallets Sample.executor)
      (initial Sample.ethers .empty Sample.added) trace m ∧
    Step Sample.chain.wallets Sample.executor m .stopLater m₁ ∧
    Run (Step Sample.chain.wallets Sample.executor) m₁ trace' m₂ ∧
    Step Sample.chain.wallets Sample.executor m₂ (.resolved m.stopLaters.length) m' ∧
    (trace ++ trace').countP (·.isStart) ≤ 1 ∧ .stop ∉ trace' ∧
    ∃ row ∈ m'.db.finalMessages, Added trace m row.messageHash ∧ row.isOpen := by
  obtain ⟨trace, m, m₁, trace', m₂, m', hrun, hstep, hrun', hstep', hstarts, hstop, hadded, _, hrows⟩ :=
    runs_of_observed Sample.addedTooLate_observed
  obtain ⟨row, heq, hrow⟩ := List.map_eq_singleton_iff.mp hrows
  obtain ⟨hhash, hopen⟩ := Prod.mk.inj hrow
  refine ⟨trace, m, m₁, trace', m₂, m', hrun, hstep, hrun', hstep', hstarts, hstop, row, ?_⟩
  exact ⟨by simp [heq], hhash ▸ hadded, of_decide_eq_true hopen⟩

end Handler

end UniversalLogin
