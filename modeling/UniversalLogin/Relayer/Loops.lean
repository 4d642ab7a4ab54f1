import UniversalLogin.Relayer.QueueRows

/-!
# At most one loop

A loop that was stopped goes on until it looks at the state of the queue, and is not stopped any
more if the queue was started in the meantime. So there is at most one active loop as long as
`start` is called only if the queue is running or no loop is active.
-/

namespace UniversalLogin

open Async Labelled

namespace Handler

section
variable {C : Type} [DecidableEq C] {wallets : Address → Option Storage} {executor : Executor}
  {ethers : Ethers} {requests : C → Request} {m : Handler C}

/-- In every run in which no loop is started beside another, at most one loop is active. No message
is passed to `executeAndWait` while one is executed, and no message is marked with both a
transaction and an error. -/
theorem one_loop
    (hrun : Run (Guarded StartsAlone (Step wallets executor)) (initial ethers .empty requests)
      trace m) :
    (∀ (i j : Nat) (loop loop' : Loop), m.loops[i]? = some loop → loop ≠ .returned →
      m.loops[j]? = some loop' → loop' ≠ .returned → i = j) ∧
    (∀ i next m', Step wallets executor m (.passed i next) m' →
      ∀ (j : Nat) running call, m.loops[j]? ≠ some (.executing running call)) ∧
    ∀ row ∈ m.db.finalMessages, row.transactionHash = none ∨ row.error = none := by
  have halone := alone_of_run (fun _ _ h => h) hrun
  have hone : ∀ (i j : Nat) (loop loop' : Loop), m.loops[i]? = some loop → loop ≠ .returned →
      m.loops[j]? = some loop' → loop' ≠ .returned → i = j := by
    intro i j loop loop' hi hloop hj hloop'
    obtain ⟨rest, heq, hi', _⟩ := halone.last hi hloop
    obtain ⟨rest', heq', hj', _⟩ := halone.last hj hloop'
    rw [hi', hj', (List.append_inj' (heq.symm.trans heq') rfl).1]
  refine ⟨hone, fun i next m' hstep j running call hj => ?_, (tidy_of_run (fun _ _ h => h) hrun).once⟩
  cases hstep with
  | passed _ hi =>
    cases hone i j _ _ hi (fun h => by cases h) hj (fun h => by cases h)
    cases hi.symm.trans hj

end

/-! ## A message that is executed, and a queue that is started too early -/

end Handler

namespace Sample

/-- The queue is stopped, and started again when its loop has returned. -/
def restarted : List (Handler.Turn Unit) :=
  oneMessage ++ [.stop, .loop 0, .loop 0, .start] ++ List.replicate 3 (.loop 1)

set_option maxRecDepth 20000 in
theorem restarted_alone : (Handler.turns executor accepting Handler.StartsAlone restarted
    (.initial ethers .empty added)).map (fun p => p.1.countP (·.isStart)) = some 2 := by decide

/-- The queue is stopped and started again before its loop has noticed. -/
def startedAgain : List (Handler.Turn Unit) :=
  [.client (), .start, .loop 0, .stop, .start, .loop 1, .loop 0, .loop 1]

/-- The hash of the message that a loop executes. -/
def executes : Loop → Option Bytes32
  | .executing next _ => some next.messageHash
  | _ => none

set_option maxRecDepth 20000 in
theorem startedAgain_executes : ((Handler.turns executor accepting (fun _ _ => True) startedAgain
    (.initial ethers .empty added)).map fun p => p.2.loops.map executes) =
      some [some messageHash, some messageHash] := by decide

end Sample

namespace Handler

theorem one_loop_sample : ∃ trace m, Run (Guarded StartsAlone (Step Sample.chain.wallets
      Sample.executor)) (initial Sample.ethers .empty Sample.added) trace m ∧
    trace.countP (·.isStart) = 2 ∧
    ∀ row ∈ m.db.finalMessages, row.transactionHash = none ∨ row.error = none := by
  obtain ⟨⟨trace, m⟩, hrestarted, hstarts⟩ := Option.map_eq_some_iff.mp Sample.restarted_alone
  have hrun := run_turns Sample.answers_accepting hrestarted
  exact ⟨trace, m, hrun, hstarts, (one_loop hrun).2.2⟩

/-- Two loops execute the same message. -/
theorem two_loops : ∃ trace m, Run (Step Sample.chain.wallets Sample.executor)
      (initial Sample.ethers .empty Sample.added) trace m ∧
    m.loops.map Sample.executes = [some Sample.messageHash, some Sample.messageHash] := by
  obtain ⟨⟨trace, m⟩, hturns, hloops⟩ := Option.map_eq_some_iff.mp Sample.startedAgain_executes
  exact ⟨trace, m, (run_turns Sample.answers_accepting hturns).of_guarded, hloops⟩

end Handler

end UniversalLogin
