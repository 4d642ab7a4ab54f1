import UniversalLogin.Contracts.WalletSteps

/-!
# Administrative calls

`addKeys` is a loop of `addKey`, so a property of the storage is kept by all administrative calls if
it is kept by `addKey`, `removeKey` and `setRequiredSignatures` (`AdminCall.apply_invariant`). All
of them ask for the same authority and write to the same variables.
-/

namespace UniversalLogin

@[simp] theorem Storage.adminState_lastNonce {s : Storage} :
    ({ s with lastNonce := n } : Storage).adminState = s.adminState := rfl

@[simp] theorem Storage.adminState_initialized {s : Storage} :
    ({ s with initialized := b } : Storage).adminState = s.adminState := rfl

namespace AdminCall

variable {c : AdminCall} {s s' : Storage} {this sender : Address} {events : List Event}

/-- The rule of invariants of the storage and of the events so far. -/
theorem apply_invariant_log {P : Storage → List Event → Prop} (log : List Event)
    (hadd : ∀ t log key purpose h events, P t log →
      t.addKey this sender key purpose = .ok (h, events) →
      P { t with toKeyHolder := h } (log ++ events))
    (hcount : ∀ t log n, P t log → P t (log ++ [.multipleKeysAdded n]))
    (hremove : ∀ key purpose h events, c = .removeKey key purpose →
      s.removeKey this sender key purpose = .ok (h, events) →
      P { s with toKeyHolder := h } (log ++ events))
    (hset : ∀ n, c = .setRequiredSignatures n →
      ERC1077.setRequiredSignatures this sender n s = .ok s' → P s' log)
    (hs : P s log) (happly : c.apply this sender s = .ok (s', events)) : P s' (log ++ events) := by
  cases c with
  | addKey key purpose =>
    obtain ⟨h, hok, rfl⟩ := apply_addKey_eq_ok.mp happly
    exact hadd s log key purpose h events hs hok
  | addKeys keys purposes =>
    obtain ⟨h, hok, rfl⟩ := apply_addKeys_eq_ok.mp happly
    obtain ⟨_, _, _, added, hloop, rfl⟩ := KeyHolder.addKeys_eq_ok.mp hok
    rw [← List.append_assoc]
    refine hcount _ _ _ (KeyHolder.addEach_invariant
      (P := fun h log => P { s with toKeyHolder := h } log) ?_ hloop hs)
    intro h log key purpose h' events hP hok
    exact hadd { s with toKeyHolder := h } log key purpose h' events hP hok
  | removeKey key purpose =>
    obtain ⟨h, hok, rfl⟩ := apply_removeKey_eq_ok.mp happly
    exact hremove key purpose h events rfl hok
  | setRequiredSignatures n =>
    obtain ⟨hok, rfl⟩ := apply_setRequiredSignatures_eq_ok.mp happly
    simpa using hset n rfl hok

/-- The rule of invariants of the storage. -/
theorem apply_invariant {P : Storage → Prop}
    (hadd : ∀ t key purpose h events, P t → t.addKey this sender key purpose = .ok (h, events) →
      P { t with toKeyHolder := h })
    (hremove : ∀ key purpose h events, c = .removeKey key purpose →
      s.removeKey this sender key purpose = .ok (h, events) → P { s with toKeyHolder := h })
    (hset : ∀ n, c = .setRequiredSignatures n →
      ERC1077.setRequiredSignatures this sender n s = .ok s' → P s')
    (hs : P s) (happly : c.apply this sender s = .ok (s', events)) : P s' :=
  apply_invariant_log (P := fun t _ => P t) []
    (fun t _ key purpose h events ht hok => hadd t key purpose h events ht hok)
    (fun _ _ _ ht => ht) hremove hset hs happly

/-- The other variables stay as they are. -/
theorem apply_frame (happly : c.apply this sender s = .ok (s', events)) :
    s'.masterAddress = s.masterAddress ∧ s'.initialized = s.initialized ∧
      s'.lastNonce = s.lastNonce := by
  refine apply_invariant (P := fun t => t.masterAddress = s.masterAddress ∧
    t.initialized = s.initialized ∧ t.lastNonce = s.lastNonce) ?_ ?_ ?_ ⟨rfl, rfl, rfl⟩ happly
  · exact fun t _ _ h _ ht _ => ht
  · exact fun _ _ h _ _ _ => ⟨rfl, rfl, rfl⟩
  · intro n _ hok
    obtain ⟨_, _, _, rfl⟩ := ERC1077.setRequiredSignatures_eq_ok.mp hok
    exact ⟨rfl, rfl, rfl⟩

/-- A call that takes effect comes from a management key or from the wallet. -/
theorem apply_permitted (happly : c.apply this sender s = .ok (s', events)) :
    s.keyHasPurpose sender managementKey ∨ sender = this := by
  cases c with
  | addKey key purpose =>
    obtain ⟨h, hok, _⟩ := apply_addKey_eq_ok.mp happly
    exact (KeyHolder.addKey_eq_ok.mp hok).1
  | addKeys keys purposes =>
    obtain ⟨h, hok, _⟩ := apply_addKeys_eq_ok.mp happly
    exact (KeyHolder.addKeys_eq_ok.mp hok).1
  | removeKey key purpose =>
    obtain ⟨h, hok, _⟩ := apply_removeKey_eq_ok.mp happly
    exact (KeyHolder.removeKey_eq_ok.mp hok).1
  | setRequiredSignatures n =>
    obtain ⟨hok, _⟩ := apply_setRequiredSignatures_eq_ok.mp happly
    exact (ERC1077.setRequiredSignatures_eq_ok.mp hok).1

end AdminCall

/-- The steps of a transaction in which the wallet makes no call. -/
def transaction (msg : Msg) (gas : Gas) : List Action := [.call msg, .run gas, .resume gas]

/-- The wallet has code to run: its own or that of its master. -/
def HasCode (env : Env) (s : Storage) : Prop := env.code = .erc1077 ∨ s.masterAddress ≠ 0

theorem HasCode.kept : Kept env (fun _ _ _ => True) (fun _ w => HasCode env w.storage)
    (fun _ _ => True) := by
  refine .of_storage (P := fun _ => HasCode env) ?_ (fun h => h) (fun h _ _ _ => h) (fun h => h)
  intro fs s msg c s' events h _ _ _ happly
  rw [HasCode, (AdminCall.apply_frame happly).1]
  exact h

theorem HasCode.reachable {m : Machine} (hm : Reachable env m) : HasCode env m.world.storage := by
  obtain ⟨first, w, acts, hw, hrun⟩ := hm
  have hdeployed : HasCode env w.storage := by
    cases hw with
    | erc1077 hcode => exact .inl hcode
    | proxy _ hmaster => exact .inr hmaster
  exact (HasCode.kept.run_of_true (Reentrancy.Machine.satisfies_idle hdeployed) hrun).world

/-- A call without value to a wallet that has code runs the function it decodes to. -/
theorem start_eq {env : Env} {w : World} (hcode : HasCode env w.storage) (hvalue : msg.value = 0) :
    start env msg gas w =
      match dispatch env.code msg.data with
      | .malformed => .revert
      | .admin c =>
        match c.apply env.this msg.sender w.storage with
        | .error _ => .revert
        | .ok (s, events) => .done (w.setAdministered msg.sender c s events) []
      | .executeSigned args => executeSigned env msg.sender args gas w
      | .initializeKey key => initializeKey key w
      | .initializeWithENS key ens => initializeWithENS env key ens none w
      | .initializeWithRefund key ens refund => initializeWithRefund env key ens refund w
      | _ => .done w [] := by
  have hcode' : ¬ (env.code ≠ .erc1077 ∧ w.storage.masterAddress = 0) := by
    rw [HasCode] at hcode
    tauto
  have hvalue' : ¬ msg.value ≠ 0 := not_not_intro hvalue
  simp only [start, receive_of_value_eq_zero hvalue]
  rw [if_neg hcode']
  cases dispatch env.code msg.data with
  | fallback | malformed => rfl
  | _ => exact if_neg hvalue'

theorem start_admin_eq {env : Env} {w : World} (hcode : HasCode env w.storage)
    (hvalue : msg.value = 0) (hcall : dispatch env.code msg.data = .admin c) :
    start env msg gas w =
      match c.apply env.this msg.sender w.storage with
      | .error _ => .revert
      | .ok (s, events) => .done (w.setAdministered msg.sender c s events) [] := by
  rw [start_eq hcode hvalue, hcall]

theorem start_admin {env : Env} {w : World} (hcode : HasCode env w.storage) (hvalue : msg.value = 0)
    (hcall : dispatch env.code msg.data = .admin c)
    (happly : c.apply env.this msg.sender w.storage = .ok (s, events)) :
    start env msg gas w = .done (w.setAdministered msg.sender c s events) [] := by
  rw [start_admin_eq hcode hvalue hcall, happly]

/-- An administrative call that does not take effect, or comes with ether, reverts. -/
theorem start_admin_error {env : Env} {w : World} (hcode : HasCode env w.storage)
    (hcall : dispatch env.code msg.data = .admin c)
    (hno : ¬ ∃ s events, c.apply env.this msg.sender w.storage = .ok (s, events)) :
    start env msg gas w = .revert := by
  by_cases hvalue : msg.value = 0
  · rw [start_admin_eq hcode hvalue hcall]
    cases happly : c.apply env.this msg.sender w.storage with
    | error _ => rfl
    | ok r => exact absurd ⟨r.1, r.2, happly⟩ hno
  · have hcode' : ¬ (env.code ≠ .erc1077 ∧ w.storage.masterAddress = 0) := by
      rw [HasCode] at hcode
      tauto
    simp only [start, storage_receive]
    rw [if_neg hcode', hcall]
    exact if_pos hvalue

/-- An administrative call by anyone else reverts. -/
theorem start_admin_of_not_permitted {env : Env} {w : World} (hcode : HasCode env w.storage)
    (hcall : dispatch env.code msg.data = .admin c)
    (hmanager : w.storage.keyHasPurpose msg.sender managementKey = false)
    (hsender : msg.sender ≠ env.this) : start env msg gas w = .revert := by
  refine start_admin_error hcode hcall ?_
  rintro ⟨s, events, happly⟩
  rcases AdminCall.apply_permitted happly with hmanager' | hsender'
  · rw [hmanager] at hmanager'
    cases hmanager'
  · exact absurd hsender' hsender

/-- A transaction that makes an administrative call. -/
theorem run_transaction_admin {env : Env} {w : World} (hsender : msg.sender ≠ env.this)
    (hcode : HasCode env w.storage) (hvalue : msg.value = 0)
    (hcall : dispatch env.code msg.data = .admin c)
    (happly : c.apply env.this msg.sender w.storage = .ok (s, events)) :
    run env (idle w) (transaction msg gas) =
      some (idle (w.setAdministered msg.sender c s events)) := by
  simp [transaction, Transition.run, Reentrancy.step, Reentrancy.Machine.idle, wallet, hsender,
    start_admin hcode hvalue hcall happly, Reentrancy.Yield.enact, Reentrancy.finish]

/-- A transaction meets a condition if its call does. -/
theorem guarded_transaction {env : Env} {w : World}
    {G : List (Option Frame) → Storage → Msg → Prop} (hg : G [none] w.storage msg) :
    Transition.Guarded (step env) (Meets G) (idle w) (transaction msg gas) := by
  refine ⟨?_, fun m hcall => ⟨?_, fun m' _ => ⟨?_, fun _ _ => trivial⟩⟩⟩
  · rintro _ _ _ ⟨⟩
  · rintro msg' gas' hcalling _
    cases Reentrancy.Step.of_step hcall with
    | call _ =>
      cases hcalling
      exact hg
  · rintro _ _ _ ⟨⟩

end UniversalLogin
