import UniversalLogin.Contracts.Nonces

/-!
# ExecutedSigned

An `executeSigned` emits its event after `to.call` has ended, so executions that are nested emit in
another order than the one in which they began, and a call that fails takes its event back. The
executions whose event is still to come are those of the waiting frames (`Announced.reachable`).
When nothing waits, every nonce below `lastNonce` has exactly one event, with the hash of the
message that was executed with it (`executedSigned_events`).
-/

namespace UniversalLogin

open Reentrancy

/-- The message and the nonce that an `ExecutedSigned` tells of. -/
def Event.signed? : Event → Option (Bytes32 × Uint256)
  | .executedSigned messageHash nonce _ => some (messageHash, nonce)
  | _ => none

def signedEvents (events : List Event) : List (Bytes32 × Uint256) := events.filterMap Event.signed?

/-- An `executeSigned` waits for `to.call`. -/
def Frame.awaiting? : Frame → Option ExecuteArgs
  | .executing args .. => some args
  | _ => none

/-- The executions whose event is still to come, innermost first. -/
def awaiting (fs : List (Option Frame)) : List ExecuteArgs :=
  fs.filterMap fun f => f.bind Frame.awaiting?

@[simp] theorem awaiting_cons {f : Option Frame} :
    awaiting (f :: fs) = (f.bind Frame.awaiting?).toList ++ awaiting fs := by
  rw [awaiting, List.filterMap_cons]
  cases f.bind Frame.awaiting? <;> rfl

/-- A frame that does not wait for `to.call`. -/
theorem awaiting_other {f : Option Frame} (hf : f.bind Frame.awaiting? = none) :
    awaiting (f :: fs) = awaiting fs := by
  rw [awaiting_cons, hf]
  rfl

theorem signedEvents_append :
    signedEvents (events ++ events') = signedEvents events ++ signedEvents events' :=
  List.filterMap_append

section
variable {env : Env}

/-- What the event of an execution tells. -/
def digest (env : Env) (args : ExecuteArgs) : Bytes32 × Uint256 :=
  (ERC1077.calculateMessageHash env.crypto env.this args.toMessage, args.nonce)

/-- Administrative calls do not tell of executions. -/
theorem signedEvents_apply {s s' : Storage}
    (happly : AdminCall.apply this sender c s = .ok (s', events)) : signedEvents events = [] := by
  refine AdminCall.apply_invariant_log (P := fun _ log => signedEvents log = []) [] ?_ ?_ ?_
    (fun _ _ _ => rfl) rfl happly
  · intro t log key purpose h events hlog hok
    obtain ⟨_, _, _, _, _, rfl⟩ := KeyHolder.addKey_eq_ok.mp hok
    rw [signedEvents_append, hlog]
    rfl
  · intro t log n hlog
    rw [signedEvents_append, hlog]
    rfl
  · intro key purpose h events _ hok
    obtain ⟨_, _, _, _, _, rfl⟩ := KeyHolder.removeKey_eq_ok.mp hok
    rfl

/-- The executions are those that have been told of and those that wait. -/
def Announced (env : Env) (fs : List (Option Frame)) (w : World) : Prop :=
  (signedEvents w.events ++ (awaiting fs).map (digest env)).Perm
    ((executions w).map (digest env))

namespace Announced

theorem of_eq {w w' : World} (h : Announced env fs w) (hfs : awaiting fs' = awaiting fs)
    (hevents : signedEvents w'.events = signedEvents w.events)
    (hexecutions : executions w' = executions w) : Announced env fs' w' := by
  rw [Announced, hfs, hevents, hexecutions]
  exact h

theorem receive (h : Announced env fs w) : Announced env fs (w.receive this msg) := by
  refine h.of_eq rfl ?_ (executions_of_history_eq history_receive)
  rw [World.receive]
  split <;> rfl

/-- An operation that is not an execution. -/
theorem append {w w' : World} (h : Announced env fs w) (hfs : awaiting fs' = awaiting fs)
    (hevents : w'.events = w.events ++ events) (hsigned : signedEvents events = [])
    (hhistory : w'.history = w.history ++ [e]) (he : e.executed? = none) :
    Announced env fs' w' := by
  refine h.of_eq hfs ?_ ?_
  · rw [hevents, signedEvents_append, hsigned, List.append_nil]
  · rw [executions_of_history_append hhistory, he]
    exact List.append_nil _

/-- An execution begins. -/
theorem setExecuted (h : Announced env fs w) :
    Announced env (some (.executing args sender startingGas gasleft began) :: fs)
      (w.setExecuted args) := by
  have hexecutions : executions (w.setExecuted args) = executions w ++ [args] :=
    executions_of_history_append (e := .executed args) rfl
  rw [Announced, hexecutions, List.map_append, awaiting_cons]
  change (signedEvents w.events ++ (digest env args :: (awaiting fs).map (digest env))).Perm _
  exact (List.perm_middle.trans (h.cons _)).trans (List.perm_append_singleton _ _).symm

/-- An execution tells of itself. -/
theorem emit (success : Bool)
    (h : Announced env (some (.executing args sender startingGas gasleft began) :: fs) w) :
    Announced env fs (w.emit (.executedSigned
      (ERC1077.calculateMessageHash env.crypto env.this args.toMessage) args.nonce success)) := by
  have hevents : signedEvents (w.emit (.executedSigned
      (ERC1077.calculateMessageHash env.crypto env.this args.toMessage) args.nonce
        success)).events = signedEvents w.events ++ [digest env args] := signedEvents_append
  rw [Announced, hevents, List.append_assoc]
  exact h

theorem callOut (h : Announced env (some f :: fs) w) :
    (UniversalLogin.callOut env w f to_ value data).Keeps (Announced env) (fun _ _ => True) fs := by
  rw [UniversalLogin.callOut]
  split
  · exact h
  split
  · exact ⟨h, trivial⟩
  · exact ⟨h, h⟩

theorem start (h : Announced env fs w) :
    (start env msg gas w).Keeps (Announced env) (fun _ _ => True) fs := by
  have h : Announced env fs (w.receive env.this msg) := h.receive
  generalize hy : UniversalLogin.start env msg gas w = y
  have hstart : Start env msg gas (w.receive env.this msg) y := hy ▸ Start.of_start
  cases hstart with
  | quiet _ => exact h
  | revert => trivial
  | administered _ _ happly => exact h.append rfl rfl (signedEvents_apply happly) rfl rfl
  | executed _ _ => exact h.setExecuted.callOut
  | @initialized key _ _ => exact h.append (e := .registered key) rfl rfl rfl rfl rfl
  | @registering key _ _ _ _ =>
    exact callOut (h.append (e := .registered key) (awaiting_other rfl) rfl rfl rfl rfl)

theorem resume (h : Announced env (some f :: fs) w) :
    (resume env f outcome gas w).Keeps (Announced env) (fun _ _ => True) fs := by
  generalize hy : UniversalLogin.resume env f outcome gas w = y
  have hresume : Resume env outcome w f y := hy ▸ Resume.of_resume
  cases hresume with
  | revert => trivial
  | refunding _ _ =>
    have hemit : Announced env fs (w.emit _) := h.emit outcome.isSome
    exact callOut (hemit.of_eq (awaiting_other rfl) rfl rfl)
  | refunded => exact h.of_eq (awaiting_other rfl).symm rfl rfl
  | registering _ =>
    exact callOut (h.of_eq ((awaiting_other rfl).trans (awaiting_other rfl).symm) rfl rfl)
  | registered => exact h.of_eq (awaiting_other rfl).symm rfl rfl
  | refundingDeployment _ =>
    exact callOut (h.of_eq ((awaiting_other rfl).trans (awaiting_other rfl).symm) rfl rfl)
  | deployed => exact h.of_eq (awaiting_other rfl).symm rfl rfl

theorem stable : Stable (wallet env) (Announced env) (fun _ _ => True) where
  push h := h.of_eq (awaiting_other rfl) rfl rfl
  pop h := h.of_eq (awaiting_other rfl).symm rfl rfl
  perturb _ h := h.of_eq rfl rfl rfl
  call _ := trivial

theorem deployed (h : Deployed env first w) : Announced env [] w := by
  cases h <;> exact .refl _

theorem reachable (hm : Reachable env m) : Announced env (frames m.pending) m.world := by
  obtain ⟨first, w, acts, hw, hrun⟩ := hm
  exact (Machine.Satisfies.run stable (fun _ _ _ _ h _ => h.start) (fun _ _ _ _ _ h => h.resume)
    hrun (Machine.satisfies_idle (deployed hw))).world

end Announced

/-- The only pair with the nonce `i` is that of the i-th execution. -/
theorem filter_digest {w : World} (hn : Numbered w) (hlength : (executions w).length < 2 ^ 256)
    (hi : i < (executions w).length) :
    ((executions w).map (digest env)).filter (fun e => e.2 = BitVec.ofNat 256 i) =
      [digest env (executions w)[i]] := by
  have hnodup : ((executions w).map fun args => args.nonce).Nodup := hn.nodup_nonces hlength
  have hnonce : ((executions w)[i]).nonce = BitVec.ofNat 256 i := hn.nonces i hi
  have hsplit : executions w =
      (executions w).take i ++ (executions w)[i] :: (executions w).drop (i + 1) := by
    rw [List.getElem_cons_drop, List.take_append_drop]
  generalize (executions w)[i] = args at hsplit hnonce ⊢
  generalize (executions w).take i = before at hsplit
  generalize (executions w).drop (i + 1) = after at hsplit
  rw [hsplit, List.map_append, List.map_cons, List.nodup_append, List.nodup_cons] at hnodup
  obtain ⟨_, ⟨hafter, _⟩, hbefore⟩ := hnodup
  have hnone (as : List ExecuteArgs) (has : ∀ a ∈ as, a.nonce ≠ args.nonce) :
      (as.map (digest env)).filter (fun e => e.2 = BitVec.ofNat 256 i) = [] := by
    rw [List.filter_eq_nil_iff]
    intro e he
    obtain ⟨a, ha, rfl⟩ := List.mem_map.mp he
    simpa [digest, ← hnonce] using has a ha
  have hbefore' := hnone before fun a ha =>
    hbefore a.nonce (List.mem_map_of_mem ha) args.nonce List.mem_cons_self
  have hafter' := hnone after fun a ha heq => hafter (heq ▸ List.mem_map_of_mem ha)
  rw [hsplit, List.map_append, List.map_cons, List.filter_append, List.filter_cons_of_pos, hbefore',
    hafter', List.nil_append]
  simp [digest, hnonce]

/-- Between transactions there is one `ExecutedSigned` for each nonce below `lastNonce`, and it
tells the hash of the message that was executed with that nonce. -/
theorem executedSigned_events (hm : Reachable env m) (hidle : m.pending = [])
    (hlength : (executions m.world).length < 2 ^ 256) :
    (signedEvents m.world.events).length = m.world.storage.lastNonce.toNat ∧
      ∀ i (hi : i < (executions m.world).length),
        (signedEvents m.world.events).filter (fun e => e.2 = BitVec.ofNat 256 i) =
          [digest env (executions m.world)[i]] := by
  have hn : Numbered m.world := Numbered.reachable hm
  have hperm : Announced env (frames m.pending) m.world := Announced.reachable hm
  rw [hidle, Announced] at hperm
  have hperm : (signedEvents m.world.events).Perm ((executions m.world).map (digest env)) := by
    simpa [frames, awaiting] using hperm
  constructor
  · rw [hn.next, BitVec.toNat_ofNat, Nat.mod_eq_of_lt hlength, hperm.length_eq, List.length_map]
  · intro i hi
    have hfilter := hperm.filter fun e => decide (e.2 = BitVec.ofNat 256 i)
    rw [filter_digest hn hlength hi] at hfilter
    exact List.perm_singleton.mp hfilter

end

theorem executedSigned_events_sample :
    (signedEvents Sample.executed.events).length = 1 ∧
      (signedEvents Sample.executed.events).filter (fun e => e.2 = 0) =
        [digest Sample.env Sample.args] := by
  have hone : (executions Sample.executed).length = 1 := by rw [Sample.executions_executed]; rfl
  obtain ⟨hlength, hevents⟩ := executedSigned_events Sample.executed_reachable rfl (by
    change (executions Sample.executed).length < _
    rw [hone]
    decide)
  exact ⟨hlength, hevents 0 (by change 0 < (executions Sample.executed).length; omega)⟩

end UniversalLogin
