import UniversalLogin.Relayer.Acceptance
import UniversalLogin.Relayer.HandlerRuns

/-!
# Given turns

The steps of a handler in which it is told who takes the next one, where a function answers the
queries. They may be evaluated, and are steps of a run (`run_turns`).
-/

namespace UniversalLogin

open Async Labelled

namespace Handler

variable {C : Type} [DecidableEq C] {wallets : Address → Option Storage} {executor : Executor}
  {m m' : Handler C}

/-- Who takes the next step: a client, a loop, or the caller of a function of the queue. -/
inductive Turn (C : Type)
  | client (c : C)
  | loop (i : Nat)
  | start
  | stop
  | stopLater
  | resolve (k : Nat)

section
variable (executor) (answer : (q : Query) → Database → Except JsError q.Answer × Database)

def turnOfLoop (m : Handler C) (i : Nat) : Loop → Option (Event C × Handler C)
  | .gettingNext =>
    let next := MessageQueueSQLStore.nextOf (answer .selectNextFinalMessage m.db).1
    some (.gotNext i next, { m with loops := m.loops.set i (.gotNext next) })
  | .gotNext (.ok (some next)) =>
    some (.passed i next, { m with loops := m.loops.set i (.executing next
      (.begin (MessageQueueService.execute executor next.message next.messageHash))) })
  | loop@(.executing next call) =>
    match call.turn answer m.db with
    | some (e, db', call') => some (.executed i next.messageHash e,
        { m with db := db', loops := m.loops.set i (.executing next call') })
    | none => (loop.goOn m.state).map fun (state', loop') =>
        (.wentOn i, { m with state := state', loops := m.loops.set i loop' })
  | loop => (loop.goOn m.state).map fun (state', loop') =>
      (.wentOn i, { m with state := state', loops := m.loops.set i loop' })

def turn (m : Handler C) : Turn C → Option (Event C × Handler C)
  | .client c =>
    match (m.calls c).turn answer m.db with
    | some (e, db', c') =>
      some (.answered c e, { m with db := db', calls := Function.update m.calls c c' })
    | none => some (.settled c, m)
  | .loop i => m.loops[i]?.bind (turnOfLoop executor answer m i)
  | .start =>
    if m.state = .running then some (.start, m)
    else some (.start, { m with state := .running, loops := m.loops ++ [.gettingNext] })
  | .stop => some (.stop, { m with state := .stopped })
  | .stopLater =>
    some (.stopLater, { m with state := .stopping, stopLaters := m.stopLaters ++ [false] })
  | .resolve k =>
    if m.stopLaters[k]? = some false ∧ m.state = .stopped then
      some (.resolved k, { m with stopLaters := m.stopLaters.set k true })
    else none

/-- The turns one after another, as long as their steps meet a condition. -/
def turns (C' : Handler C → Event C → Prop) [∀ m e, Decidable (C' m e)] :
    List (Turn C) → Handler C → Option (List (Event C) × Handler C)
  | [], m => some ([], m)
  | t :: ts, m => do
    let (e, m') ← turn executor answer m t
    if m.exited = false ∧ C' m e then
      let (trace, m'') ← turns C' ts m'
      return (e :: trace, m'')
    else none

end

variable {answer : (q : Query) → Database → Except JsError q.Answer × Database}

theorem step_of_goOn {m : Handler C} {i : Nat} {e : Event C} (hexited : m.exited = false)
    (hloop : m.loops[i]? = some loop)
    (h : ((loop.goOn m.state).map fun (state', loop') => ((.wentOn i : Event C),
      { m with state := state', loops := m.loops.set i loop' })) = some (e, m')) :
    Step wallets executor m e m' := by
  obtain ⟨⟨state', loop'⟩, hgoes, heq⟩ := Option.map_eq_some_iff.mp h
  cases heq
  exact .wentOn hexited hloop hgoes

theorem step_of_turnOfLoop {e : Event C}
    (hanswer : ∀ (q : Query) db, q.Answers wallets db (answer q db).1 (answer q db).2)
    (hexited : m.exited = false) (hloop : m.loops[i]? = some loop)
    (h : turnOfLoop executor answer m i loop = some (e, m')) : Step wallets executor m e m' := by
  rw [turnOfLoop.eq_def] at h
  split at h
  · cases h
    have hquery := hanswer .selectNextFinalMessage m.db
    have hdb : (answer .selectNextFinalMessage m.db).2 = m.db := by
      cases hr : (answer .selectNextFinalMessage m.db).1 with
      | ok row =>
        rw [hr] at hquery
        exact hquery.2.2
      | error e =>
        rw [hr] at hquery
        exact hquery
    rw [hdb] at hquery
    exact .gotNext hexited hloop hquery
  · cases h
    exact .passed hexited hloop
  · next next call =>
    cases hturn : call.turn answer m.db with
    | none =>
      rw [hturn] at h
      exact step_of_goOn hexited hloop h
    | some t =>
      rw [hturn] at h
      cases h
      exact .executed hexited hloop (Async.Call.step_of_turn hanswer hturn)
  · exact step_of_goOn hexited hloop h

theorem step_of_turn {e : Event C}
    (hanswer : ∀ (q : Query) db, q.Answers wallets db (answer q db).1 (answer q db).2)
    (hexited : m.exited = false) (h : turn executor answer m t = some (e, m')) :
    Step wallets executor m e m' := by
  cases t with
  | client c =>
    rw [turn] at h
    cases hturn : (m.calls c).turn answer m.db with
    | none =>
      rw [hturn] at h
      cases h
      obtain ⟨r, hdone⟩ := Async.Call.done_of_turn hturn
      exact .settled hexited hdone
    | some t =>
      rw [hturn] at h
      cases h
      exact .answered hexited (Async.Call.step_of_turn hanswer hturn)
  | loop i =>
    obtain ⟨loop, hloop, h⟩ := Option.bind_eq_some_iff.mp h
    exact step_of_turnOfLoop hanswer hexited hloop h
  | start =>
    rw [turn] at h
    split at h
    · next hstate =>
      cases h
      exact .startAgain hexited hstate
    · next hstate =>
      cases h
      exact .start hexited hstate
  | stop =>
    cases h
    exact .stop hexited
  | stopLater =>
    cases h
    exact .stopLater hexited
  | resolve k =>
    rw [turn] at h
    split at h
    · next hwaits =>
      cases h
      exact .resolved hexited hwaits.1 hwaits.2
    · cases h

/-- The turns make a run. -/
theorem run_turns {C' : Handler C → Event C → Prop} [∀ m e, Decidable (C' m e)]
    {ts : List (Turn C)}
    (hanswer : ∀ (q : Query) db, q.Answers wallets db (answer q db).1 (answer q db).2)
    (h : turns executor answer C' ts m = some (trace, m')) :
    Run (Guarded C' (Step wallets executor)) m trace m' := by
  induction ts generalizing m trace with
  | nil =>
    cases h
    exact .nil
  | cons t ts ih =>
    simp only [turns, Option.bind_eq_bind, Option.bind_eq_some_iff] at h
    obtain ⟨⟨e, m₁⟩, hturn, h⟩ := h
    split at h
    · next hC =>
      obtain ⟨⟨rest, m₂⟩, hrest, heq⟩ := Option.bind_eq_some_iff.mp h
      cases heq
      exact .cons ⟨hC.2, step_of_turn hanswer hC.1 hturn⟩ (ih hrest)
    · cases h

end Handler

/-! ## A chain that accepts every transaction -/

namespace Sample

def executor : Executor := ⟨ethers, keyString manager, [crypto.keccak256 [1]]⟩

def transactionHash : JsString := ['0', 'x', '5']

/-- The tables answer as they do, and the chain executes what it is sent. -/
def accepting (q : Query) (db : Database) : Except JsError q.Answer × Database :=
  match q with
  | .getCode _ => (.ok [1], db)
  | .getBalance _ => (.ok 1000000, db)
  | .estimateGas _ _ => (.ok 0, db)
  | .sendTransaction transaction =>
    match toAddress transaction.to_ with
    | some a => (.ok ⟨transactionHash, a, transaction.data⟩, db)
    | none => (.error (.thrown "invalid address"), db)
  | .waitForTransaction _ => (.ok (), db)
  | q => q.answer chain.wallets db

theorem answers_accepting (q : Query) (db : Database) :
    q.Answers chain.wallets db (accepting q db).1 (accepting q db).2 := by
  cases q with
  | getCode _ | getBalance _ | estimateGas _ _ | waitForTransaction _ => rfl
  | sendTransaction transaction =>
    rw [accepting]
    split
    · next a ha => exact ⟨ha, rfl, rfl⟩
    · rfl
  | _ => exact Query.answers_answer _ db

/-- A client of the queue, and one loop that executes its message. -/
def oneMessage : List (Handler.Turn Unit) :=
  [.client (), .start] ++ List.replicate 12 (.loop 0)

def added (_ : Unit) : Request := .add (signed byManager.bytes)

end Sample

end UniversalLogin
