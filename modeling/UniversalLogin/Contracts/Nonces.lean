import UniversalLogin.Contracts.Provenance

/-!
# Nonces

`executeSigned` asks for the nonce `lastNonce` and bumps it before it calls out, in the world that a
failure of the target does not put back. So the i-th execution that is not taken back has nonce i,
however the calls are nested, and no message is executed twice.
-/

namespace UniversalLogin

open Reentrancy

def Entry.executed? : Entry → Option ExecuteArgs
  | .executed args => some args
  | _ => none

/-- The executions that have passed their checks and have not been taken back, oldest first. -/
def executions (w : World) : List ExecuteArgs := w.history.filterMap Entry.executed?

section
variable {env : Env}

theorem executions_of_history_eq {w w' : World} (h : w'.history = w.history) :
    executions w' = executions w := by
  rw [executions, executions, h]

theorem executions_of_history_append {w w' : World} (h : w'.history = w.history ++ [e]) :
    executions w' = executions w ++ e.executed?.toList := World.filterMap_history_append h

/-- The i-th execution has the nonce i, and the next one is asked for the number of executions. -/
structure Numbered (w : World) : Prop where
  next : w.storage.lastNonce = BitVec.ofNat 256 (executions w).length
  nonces : ∀ i (hi : i < (executions w).length), ((executions w)[i]).nonce = BitVec.ofNat 256 i

namespace Numbered

theorem of_eq {w w' : World} (hn : Numbered w) (hnonce : w'.storage.lastNonce = w.storage.lastNonce)
    (hexecutions : executions w' = executions w) : Numbered w' := by
  constructor
  · rw [hnonce, hexecutions, hn.next]
  · rw [hexecutions]
    exact hn.nonces

theorem setExecuted {w : World} {args : ExecuteArgs} (hn : Numbered w)
    (hnonce : args.nonce = w.storage.lastNonce) : Numbered (w.setExecuted args) := by
  have happend : executions (w.setExecuted args) = executions w ++ [args] :=
    executions_of_history_append (e := .executed args) rfl
  constructor
  · rw [happend, World.setExecuted, hn.next]
    simp [BitVec.ofNat_add]
  · rw [happend]
    intro i hi
    rw [List.getElem_append]
    split
    · exact hn.nonces i _
    · next hge =>
      have hlast : i = (executions w).length := by simp at hi; omega
      simp [hnonce, hn.next, hlast]

theorem kept : Kept env (fun _ _ _ => True) (fun _ w => Numbered w) (fun _ _ => True) := by
  refine .of_world (P := fun _ => Numbered) ?_ ?_ ?_ ?_ ?_ ?_
  · exact fun hn => hn.of_eq rfl rfl
  · exact fun hn => hn.of_eq rfl rfl
  · intro fs w msg c s events hn _ _ _ happly
    refine hn.of_eq (AdminCall.apply_frame happly).2.2 ?_
    exact (executions_of_history_append (e := .administered msg.sender c) rfl).trans
      (List.append_nil _)
  · intro fs w msg args hn _ _ hchecks
    exact hn.setExecuted (ERC1077.executeSignedChecks_eq_ok.mp hchecks).2.2.1
  · intro fs w msg key hn _ _ _
    refine hn.of_eq rfl ?_
    exact (executions_of_history_append (e := .registered key) rfl).trans (List.append_nil _)
  · exact fun hn => hn.of_eq rfl rfl

theorem deployed (h : Deployed env first w) : Numbered w := by
  cases h <;> exact ⟨rfl, nofun⟩

theorem reachable (hm : Reachable env m) : Numbered m.world := by
  obtain ⟨first, w, acts, hw, hrun⟩ := hm
  exact (kept.run_of_true (Machine.satisfies_idle (deployed hw)) hrun).world

theorem nodup_nonces {w : World} (hn : Numbered w) (hlength : (executions w).length < 2 ^ 256) :
    ((executions w).map fun args => args.nonce).Nodup := by
  rw [List.nodup_iff_injective_get]
  intro ⟨i, hi⟩ ⟨j, hj⟩ heq
  rw [List.length_map] at hi hj
  have hij : BitVec.ofNat 256 i = BitVec.ofNat 256 j := by
    simpa [hn.nonces i hi, hn.nonces j hj] using heq
  have hij := congrArg BitVec.toNat hij
  rw [BitVec.toNat_ofNat, BitVec.toNat_ofNat, Nat.mod_eq_of_lt (by omega),
    Nat.mod_eq_of_lt (by omega)] at hij
  simpa using hij

end Numbered

/-- In a step, the executions and `lastNonce` stay as they are, or `executeSigned` passes its checks
and both grow by one, or a call fails and both are put back. -/
inductive NonceStep (env : Env) (m : Machine) (a : Action) (m' : Machine) : Prop
  | undone : m.Undone m' → NonceStep env m a m'
  | unchanged : m'.world.storage.lastNonce = m.world.storage.lastNonce →
    executions m'.world = executions m.world → NonceStep env m a m'
  | executed : m.control = .calling msg → a = .run gas →
    dispatch env.code msg.data = .executeSigned args →
    ERC1077.executeSignedChecks env.crypto env.this args m.world.storage = .ok () →
    m'.world.storage.lastNonce = m.world.storage.lastNonce + 1 →
    executions m'.world = executions m.world ++ [args] → NonceStep env m a m'

theorem NonceStep.of_step {m m' : Machine} (h : step env m a = some m') : NonceStep env m a m' := by
  cases Effect.of_step h with
  | undone hundone => exact .undone hundone
  | quiet _ hnonce hhistory => exact .unchanged hnonce (executions_of_history_eq hhistory)
  | administered _ _ _ happly hhistory =>
    refine .unchanged (AdminCall.apply_frame happly).2.2 ?_
    exact (executions_of_history_append hhistory).trans (List.append_nil _)
  | executed hcontrol ha hcall hchecks hstorage hhistory =>
    exact .executed hcontrol ha hcall hchecks (by rw [hstorage])
      (executions_of_history_append hhistory)
  | registered _ _ _ _ _ hnonce hhistory =>
    refine .unchanged hnonce ?_
    exact (executions_of_history_append hhistory).trans (List.append_nil _)

/-- With fewer than 2^256 executions, `lastNonce` is their number and no message is executed twice.
-/
theorem no_replay (hm : Reachable env m) (hlength : (executions m.world).length < 2 ^ 256) :
    m.world.storage.lastNonce.toNat = (executions m.world).length ∧
      ((executions m.world).map fun args => args.nonce).Nodup ∧
      ((executions m.world).map fun args => args.toMessage).Nodup ∧
      ∀ a m', step env m a = some m' → NonceStep env m a m' := by
  have hn := Numbered.reachable hm
  have hnodup := hn.nodup_nonces hlength
  refine ⟨?_, hnodup, ?_, fun a m' => NonceStep.of_step⟩
  · rw [hn.next, BitVec.toNat_ofNat, Nat.mod_eq_of_lt hlength]
  · refine List.Nodup.of_map (fun message : Message => message.nonce) ?_
    rwa [List.map_map]

end

namespace Sample

/-- The wallet after the transaction of the relayer. -/
def executed : World :=
  { administered env keyed args addNewcomer extended [.keyAdded newcomer 1] with
    balance := keyed.balance - 40000 }

theorem executed_reachable : Reachable env (idle executed) := by
  have hrun : run env (idle keyed) (selfTransaction executeArgs gas gas gas gas gas) =
      some (idle executed) :=
    (Carries.run_selfTransaction (G := fun _ _ _ => True) carries refunded apply_addNewcomer
      trivial trivial).1
  exact ⟨_, _, _, deployed_env, Transition.run_append.mpr ⟨_, run_keyed, hrun⟩⟩

theorem executions_executed : executions executed = [args] := rfl

end Sample

theorem no_replay_sample :
    Sample.executed.storage.lastNonce.toNat = (executions Sample.executed).length ∧
      ((executions Sample.executed).map fun args => args.toMessage).Nodup := by
  obtain ⟨hnonce, _, hnodup, _⟩ := no_replay Sample.executed_reachable
    (by
      change (executions Sample.executed).length < _
      rw [Sample.executions_executed]
      decide)
  exact ⟨hnonce, hnodup⟩

end UniversalLogin
