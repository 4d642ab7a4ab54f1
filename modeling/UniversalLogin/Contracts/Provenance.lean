import UniversalLogin.Contracts.KeyCount

/-!
# Where administrative changes come from

The wallet is permitted to administer itself. It calls itself in one place only, the inner call of
`executeSigned`: its other calls are of functions that it does not have. So every change of the
administrative state is made by a management key or carried by a signed message
(`administrative_provenance`). The signers of that message may have any purpose, however, so keys
without the management purpose administer a wallet through `executeSigned`, and through it alone
(`unprivileged_unchanged`).
-/

namespace UniversalLogin

open Reentrancy Transition

section
variable {env : Env}

theorem Initialised.not_initialises (hinit : Initialised env s) (hfalse : s.initialized = false) :
    ¬ Initialises env data key := by
  rcases hinit with hcode | htrue
  · simp [Initialises, hcode, initialKey_dispatch_erc1077]
  · rw [hfalse] at htrue
    cases htrue

theorem Initialised.apply (hinit : Initialised env s)
    (happly : AdminCall.apply this sender c s = .ok (s', events)) : Initialised env s' :=
  hinit.imp id fun htrue => (AdminCall.apply_frame happly).2.1.trans htrue

/-! ## Initialised wallets -/

/-- A frame of `executeSigned` began in a state in which its checks passed. -/
def Checked (env : Env) : Frame → Prop
  | .executing args _ _ _ began =>
    ERC1077.executeSignedChecks env.crypto env.this args began = .ok ()
  | _ => True

/-- The wallet runs `data` as the inner call of the innermost frame. -/
def InnerCall (env : Env) (fs : List (Option Frame)) (data : Bytes) : Prop :=
  ∃ args sender startingGas gasleft began rest,
    fs = some (.executing args sender startingGas gasleft began) :: rest ∧
      args.to_ = env.this ∧ args.data = data

structure Supervised (env : Env) (fs : List (Option Frame)) (w : World) : Prop where
  initialised : Initialised env w.storage
  checked : ∀ f, some f ∈ fs → Checked env f

/-- The wallet calls itself with data that run nothing, or in an inner call. -/
def Sanctioned (env : Env) (fs : List (Option Frame)) (msg : Msg) : Prop :=
  msg.sender = env.this → dispatch env.code msg.data = .fallback ∨ InnerCall env fs msg.data

namespace Supervised

theorem tail (hs : Supervised env (f :: fs) w) : Supervised env fs w :=
  ⟨hs.initialised, fun g hg => hs.checked g (List.mem_cons_of_mem _ hg)⟩

theorem cons (hs : Supervised env fs w) (hf : Checked env f) : Supervised env (some f :: fs) w := by
  refine ⟨hs.initialised, fun g hg => ?_⟩
  rcases List.mem_cons.mp hg with heq | hg
  · cases heq
    exact hf
  · exact hs.checked g hg

theorem setInitialized (hs : Supervised env fs w) : Supervised env fs w.setInitialized :=
  ⟨hs.initialised.imp id fun _ => rfl, hs.checked⟩

theorem kept : Kept env (fun _ _ _ => True) (Supervised env) (Sanctioned env) where
  push hs := ⟨hs.initialised, fun f hf => hs.checked f (by simpa using hf)⟩
  pop hs := hs.tail
  balance _ hs := ⟨hs.initialised, hs.checked⟩
  call hsender heq := absurd heq hsender
  request hfallback _ := .inl hfallback
  administered hs _ _ _ _ happly := ⟨hs.initialised.apply happly, hs.checked⟩
  executed {fs w msg args startingGas gasleft} hs _ _ _ hchecks := by
    have hs' : Supervised env fs (w.setExecuted args) := ⟨hs.initialised, hs.checked⟩
    refine ⟨hs'.cons hchecks, fun hto _ => .inr ?_⟩
    exact ⟨args, msg.sender, startingGas, gasleft, w.storage, fs, rfl, hto, rfl⟩
  initialized hs _ _ hcall hfalse := absurd hcall (hs.initialised.not_initialises hfalse)
  registering hs _ _ hcall hfalse := absurd hcall (hs.initialised.not_initialises hfalse)
  refunding hs := cons ⟨hs.tail.initialised, hs.tail.checked⟩ trivial
  refunded hs := hs.tail
  registeringNext hs := hs.tail.cons trivial
  registered hs := hs.tail.setInitialized
  refundingDeployment hs := hs.tail.setInitialized.cons trivial
  deployed hs := hs.tail.setInitialized

end Supervised

/-- The inner call of an `executeSigned` of which the wallet itself is the target. -/
structure CarriedBy (env : Env) (m : Machine) (msg : Msg) (args : ExecuteArgs) (began : Storage) :
    Prop where
  frame : ∃ sender startingGas gasleft rest,
    frames m.pending = some (.executing args sender startingGas gasleft began) :: rest
  sender : msg.sender = env.this
  to_ : args.to_ = env.this
  data : args.data = msg.data
  checks : ERC1077.executeSignedChecks env.crypto env.this args began = .ok ()

/-- A step of an initialised wallet that changes the administrative state is an administrative call,
made by a management key or carried by a message whose checks passed in the state in which its
`executeSigned` began. The other steps that change it take back a call that has failed. -/
theorem administrative_provenance (hinit : Initialised env w.storage)
    (hrun : run env (idle w) acts = some m) (hstep : step env m a = some m')
    (hchanged : m'.world.storage.adminState ≠ m.world.storage.adminState) :
    m.Undone m' ∨
      ∃ msg gas c events, m.control = .calling msg ∧ a = .run gas ∧
        dispatch env.code msg.data = .admin c ∧
        c.apply env.this msg.sender m.world.storage = .ok (m'.world.storage, events) ∧
        (m.world.storage.keyHasPurpose msg.sender managementKey = true ∨
          ∃ args began, CarriedBy env m msg args began) := by
  have hsatisfies : m.Satisfies (Supervised env) (Sanctioned env) :=
    Supervised.kept.run_of_true (Machine.satisfies_idle ⟨hinit, nofun⟩) hrun
  cases Effect.of_step hstep with
  | undone hundone => exact .inl hundone
  | quiet hsame _ _ => exact absurd hsame hchanged
  | executed _ _ _ _ hstorage _ =>
    rw [hstorage] at hchanged
    exact absurd rfl hchanged
  | registered _ _ hcall hfalse _ _ _ =>
    exact absurd hcall (hsatisfies.world.initialised.not_initialises hfalse)
  | @administered msg gas c events hcontrol ha hcall happly _ =>
    refine .inr ⟨msg, gas, c, events, hcontrol, ha, hcall, happly, ?_⟩
    refine (AdminCall.apply_permitted happly).imp id fun hsender => ?_
    rcases hsatisfies.request msg hcontrol hsender with hfallback | hinner
    · rw [hcall] at hfallback
      cases hfallback
    · obtain ⟨args, sender, startingGas, gasleft, began, rest, hframes, hto, hdata⟩ := hinner
      have hmem : some (.executing args sender startingGas gasleft began) ∈ frames m.pending := by
        rw [hframes]
        exact List.mem_cons_self
      exact ⟨args, began, ⟨sender, startingGas, gasleft, rest, hframes⟩, hsender, hto, hdata,
        hsatisfies.world.checked _ hmem⟩

/-! ## Keys without the management purpose -/

/-- Neither the caller, if it is not the wallet, nor an accepted signer has the management purpose.
-/
def Unprivileged (env : Env) (_ : List (Option Frame)) (s : Storage) (msg : Msg) : Prop :=
  (msg.sender ≠ env.this → s.keyHasPurpose msg.sender managementKey = false) ∧
  ∀ args, dispatch env.code msg.data = .executeSigned args →
    ERC1077.executeSignedChecks env.crypto env.this args s = .ok () →
    ∀ a ∈ signersOf env args, s.keyHasPurpose a managementKey = false

/-- No accepted message makes the wallet administer itself, and no initialize function is called on
a wallet that accepts it. -/
def NoSelfAdministration (env : Env) (_ : List (Option Frame)) (s : Storage) (msg : Msg) : Prop :=
  (∀ args c, dispatch env.code msg.data = .executeSigned args →
    ERC1077.executeSignedChecks env.crypto env.this args s = .ok () →
    args.to_ = env.this → dispatch env.code args.data ≠ .admin c) ∧
  ∀ key, Initialises env msg.data key → s.initialized = true

/-- The wallet does not call administrative functions of its own. -/
def Restrained (env : Env) (_ : List (Option Frame)) (msg : Msg) : Prop :=
  msg.sender = env.this → ∀ c, dispatch env.code msg.data ≠ .admin c

theorem unprivileged_kept : Kept env
    (fun fs s msg => Unprivileged env fs s msg ∧ NoSelfAdministration env fs s msg)
    (fun _ w => w.storage.adminState = admin) (Restrained env) where
  push h := h
  pop h := h
  balance _ h := h
  call hsender heq := absurd heq hsender
  request hfallback _ c hcall := by
    rw [hfallback] at hcall
    cases hcall
  administered {fs w msg c s events} _ hq hg hcall _ happly := by
    have hsender : msg.sender ≠ env.this := fun heq => hq heq c hcall
    rcases AdminCall.apply_permitted happly with hmanager | heq
    · rw [hg.1.1 hsender] at hmanager
      cases hmanager
    · exact absurd heq hsender
  executed h _ hg hcall hchecks := ⟨h, fun hto _ c => hg.2.1 _ c hcall hchecks hto⟩
  initialized _ _ hg hcall hfalse := by
    rw [hg.2.2 _ hcall] at hfalse
    cases hfalse
  registering _ _ hg hcall hfalse := by
    rw [hg.2.2 _ hcall] at hfalse
    cases hfalse
  refunding h := h
  refunded h := h
  registeringNext h := h
  registered h := h
  refundingDeployment h := h
  deployed h := h

/-- Keys without the management purpose leave keys, counter and threshold as they are, in runs in
which they do not make the wallet administer itself. -/
theorem unprivileged_unchanged
    (hunprivileged : Guarded (step env) (Meets (Unprivileged env)) (idle w) acts)
    (hself : Guarded (step env) (Meets (NoSelfAdministration env)) (idle w) acts)
    (hrun : run env (idle w) acts = some m) :
    m.world.storage.adminState = w.storage.adminState := by
  have hsatisfies : (idle w).Satisfies (fun _ w' => w'.storage.adminState = w.storage.adminState)
      (Restrained env) := Machine.satisfies_idle rfl
  refine (unprivileged_kept.run hsatisfies ?_ hrun).world
  exact (hunprivileged.and hself).mono fun m a h msg gas hc ha =>
    ⟨h.1 msg gas hc ha, h.2 msg gas hc ha⟩

/-! ## A message that carries an administrative call -/

/-- The steps of a transaction that executes a signed message on the wallet itself and pays the
refund in ether. -/
def selfTransaction (msg : Msg) (g₁ g₂ g₃ g₄ g₅ : Gas) : List Action :=
  [.call msg, .run g₁, .run g₂, .resume g₃, .ret (some []), .resume g₄, .resume g₅]

/-- An accepted message, whoever its signers are, that carries an administrative call. -/
structure Carries (env : Env) (w : World) (msg : Msg) (args : ExecuteArgs) (c : AdminCall) :
    Prop where
  sender : msg.sender ≠ env.this
  code : HasCode env w.storage
  unpaid : msg.value = 0
  call : dispatch env.code msg.data = .executeSigned args
  checks : ERC1077.executeSignedChecks env.crypto env.this args w.storage = .ok ()
  to_ : args.to_ = env.this
  value : args.value = 0
  data : dispatch env.code args.data = .admin c
  gasToken : args.gasToken = 0

/-- The gas of the transaction covers the charge for the refund, and the balance covers `amount`. -/
structure Refunded (w : World) (args : ExecuteArgs) (g₁ g₃ : Gas) (amount : Uint256) : Prop where
  allowance : ∃ n, SafeMath.sub (gasAfter g₁.starting g₁.spent)
    (BitVec.ofNat 256 (ERC1077.refundGas args.gasToken)) = .ok n
  charged : ∃ used, SafeMath.sub g₁.starting
    (gasAfter (gasAfter g₁.starting g₁.spent) g₃.spent) = .ok used ∧
      SafeMath.mul used args.gasPrice = .ok amount
  balance : amount.toNat ≤ w.balance

variable {w : World} {msg : Msg} {args : ExecuteArgs} {c : AdminCall} {g₁ g₂ g₃ g₄ g₅ : Gas}
  {amount : Uint256}

/-- The frame of `executeSigned` during the inner call. -/
def executingFrame (w : World) (msg : Msg) (args : ExecuteArgs) (gas : Gas) : Frame :=
  .executing args msg.sender gas.starting (gasAfter gas.starting gas.spent) w.storage

/-- The world after the inner call and the event that reports it. -/
def administered (env : Env) (w : World) (args : ExecuteArgs) (c : AdminCall) (s : Storage)
    (events : List Event) : World :=
  ((w.setExecuted args).setAdministered env.this c s events).emit
    (.executedSigned (ERC1077.calculateMessageHash env.crypto env.this args.toMessage) args.nonce true)

namespace Carries

theorem start_outer (hc : Carries env w msg args c) (hr : Refunded w args g₁ g₃ amount) :
    start env msg g₁ w =
      .self (w.setExecuted args) (executingFrame w msg args g₁) ⟨env.this, 0, args.data⟩ := by
  obtain ⟨allowance, hallowance⟩ := hr.allowance
  rw [start_eq hc.code hc.unpaid, hc.call]
  simp [executeSigned, hc.checks, hallowance, callOut, hc.value, hc.to_, executingFrame]

theorem resume_outer (hc : Carries env w msg args c) (hr : Refunded w args g₁ g₃ amount) :
    resume env (executingFrame w msg args g₁) (some []) g₃
        ((w.setExecuted args).setAdministered env.this c s events) =
      .other (administered env w args c s events)
        { administered env w args c s events with balance := w.balance - amount.toNat }
        (.refunding args) := by
  obtain ⟨used, hused, hamount⟩ := hr.charged
  have hbalance : ¬ w.balance < amount.toNat := Nat.not_lt.mpr hr.balance
  have hgasToken : ¬ args.gasToken ≠ 0 := not_not.mpr hc.gasToken
  simp only [resume, executingFrame, resumeExecuting, hused, refund, hamount, if_neg hgasToken,
    callOut, if_neg hc.sender, Option.isSome_some]
  exact if_neg hbalance

theorem resume_refunding (hc : Carries env w msg args c) (gas : Gas) (w' : World) :
    resume env (.refunding args) (some []) gas w' =
      .done w' (packUint256 (ERC1077.calculateMessageHash env.crypto env.this args.toMessage)) := by
  simp [resume, resumeRefunding, hc.gasToken]

/-- The call that the message carries is made, whatever the purposes of its signers. -/
theorem run_selfTransaction {G : List (Option Frame) → Storage → Msg → Prop}
    (hc : Carries env w msg args c) (hr : Refunded w args g₁ g₃ amount)
    (happly : c.apply env.this env.this (w.setExecuted args).storage = .ok (s, events))
    (hg₁ : G [none] w.storage msg)
    (hg₂ : G [some (executingFrame w msg args g₁), none] (w.setExecuted args).storage
      ⟨env.this, 0, args.data⟩) :
    run env (idle w) (selfTransaction msg g₁ g₂ g₃ g₄ g₅) =
        some (idle { administered env w args c s events with balance := w.balance - amount.toNat }) ∧
      Guarded (step env) (Meets G) (idle w) (selfTransaction msg g₁ g₂ g₃ g₄ g₅) := by
  have hinner : start env ⟨env.this, 0, args.data⟩ g₂ (w.setExecuted args) =
      .done ((w.setExecuted args).setAdministered env.this c s events) [] :=
    start_admin hc.code rfl hc.data happly
  have hother : ∀ {m : Machine} {a : Action}, (∀ gas, a ≠ .run gas) → Meets G m a :=
    fun hne _ gas _ ha => absurd ha (hne gas)
  have hcalling : ∀ {ps w msg a}, G (frames ps) w.storage msg →
      Meets G (⟨w, ps, .calling msg⟩ : Machine) a := by
    rintro ps w msg a hg _ _ ⟨⟩ _
    exact hg
  refine run_guarded_cons (hother nofun) (step_call hc.sender) ?_
  refine run_guarded_cons (hcalling hg₁) (step_run (hc.start_outer hr)) ?_
  refine run_guarded_cons (hcalling hg₂) (step_run hinner) ?_
  refine run_guarded_cons (hother nofun) (step_resume (hc.resume_outer hr)) ?_
  refine run_guarded_cons (hother nofun) rfl ?_
  refine run_guarded_cons (hother nofun) (step_resume (hc.resume_refunding g₄ _)) ?_
  exact run_guarded_cons (hother nofun) rfl ⟨rfl, trivial⟩

end Carries

end

namespace Sample

def relayer : Address := 0x00000000000000000000000000000000000000a1

def executeArgs : Msg := ⟨relayer, 0, encodeExecuteSigned args⟩

def addNewcomer : AdminCall := .addKey newcomer 1

set_option maxRecDepth 20000 in
theorem dispatch_executeArgs : dispatch env.code executeArgs.data = .executeSigned args := by
  decide

theorem carries : Carries env keyed executeArgs args addNewcomer where
  sender := by decide
  code := .inl rfl
  unpaid := rfl
  call := dispatch_executeArgs
  checks := keyed_checks
  to_ := rfl
  value := rfl
  data := by decide
  gasToken := rfl

theorem refunded : Refunded keyed args gas gas 40000 where
  allowance := ⟨866000, by decide⟩
  charged := ⟨40000, by decide⟩
  balance := by decide

/-- The storage after the inner call. -/
def extended : Storage :=
  { keyed.storage with
    keys := Function.update keyed.storage.keys newcomer ⟨1, newcomer⟩
    keyCount := 3
    lastNonce := keyed.storage.lastNonce + 1 }

theorem apply_addNewcomer :
    addNewcomer.apply wallet wallet (keyed.setExecuted args).storage =
      .ok (extended, [.keyAdded newcomer 1]) := by
  refine AdminCall.apply_addKey_eq_ok.mpr
    ⟨⟨_, 3⟩, KeyHolder.addKey_eq_ok.mpr ⟨.inr rfl, ?_, ?_, ?_, rfl, rfl⟩, rfl⟩
  all_goals decide

theorem unprivileged_outer : Unprivileged env [none] keyed.storage executeArgs := by
  refine ⟨fun _ => by decide, fun args' hcall _ => ?_⟩
  obtain rfl : args = args' := Call.executeSigned.inj (dispatch_executeArgs.symm.trans hcall)
  rw [signersOf_args]
  rintro _ (_ | ⟨_, ⟨⟩⟩)
  decide

theorem unprivileged_inner : Unprivileged env fs s ⟨wallet, 0, args.data⟩ := by
  refine ⟨fun hne => absurd rfl hne, fun args' hcall _ => ?_⟩
  have hadmin : dispatch env.code args.data = .admin addNewcomer := carries.data
  rw [hadmin] at hcall
  cases hcall

/-- The wallet at the inner call. -/
def inside : Machine :=
  ⟨keyed.setExecuted args, [⟨some (executingFrame keyed executeArgs args gas),
    keyed.setExecuted args⟩, ⟨none, keyed⟩], .calling ⟨wallet, 0, args.data⟩⟩

/-- The wallet after the inner call. -/
def registered : Machine :=
  { inside with
    world := (keyed.setExecuted args).setAdministered wallet addNewcomer extended
      [.keyAdded newcomer 1]
    control := .returning (some []) }

theorem run_inside : run env (idle keyed) [.call executeArgs, .run gas] = some inside :=
  run_cons.mpr ⟨_, step_call carries.sender,
    run_cons.mpr ⟨_, step_run (carries.start_outer refunded), rfl⟩⟩

theorem step_inside : step env inside (.run gas) = some registered :=
  step_run (start_admin (.inl rfl) rfl carries.data apply_addNewcomer)

theorem extended_ne_keyed : extended.adminState ≠ keyed.storage.adminState := by
  intro heq
  have hcount : extended.keyCount = keyed.storage.keyCount := congrArg AdminState.keyCount heq
  exact absurd hcount (by decide)

end Sample

/-- The inner call of the sample message: the theorem finds the message behind the change. -/
theorem administrative_provenance_sample :
    Sample.inside.Undone Sample.registered ∨
      ∃ msg gas c events, Sample.inside.control = .calling msg ∧
        (.run Sample.gas : Action) = .run gas ∧ dispatch Sample.env.code msg.data = .admin c ∧
        c.apply Sample.env.this msg.sender Sample.inside.world.storage =
          .ok (Sample.registered.world.storage, events) ∧
        (Sample.inside.world.storage.keyHasPurpose msg.sender managementKey = true ∨
          ∃ args began, CarriedBy Sample.env Sample.inside msg args began) :=
  administrative_provenance (.inl rfl) Sample.run_inside Sample.step_inside Sample.extended_ne_keyed

/-- An action key has a management key registered by signing a message to the wallet itself. -/
theorem action_key_administers :
    ∃ m, Guarded (step Sample.env) (Meets (Unprivileged Sample.env)) (idle Sample.keyed)
        (selfTransaction Sample.executeArgs Sample.gas Sample.gas Sample.gas Sample.gas Sample.gas) ∧
      run Sample.env (idle Sample.keyed)
        (selfTransaction Sample.executeArgs Sample.gas Sample.gas Sample.gas Sample.gas Sample.gas) =
        some m ∧
      m.world.storage.adminState ≠ Sample.keyed.storage.adminState ∧
      m.world.storage.keyHasPurpose Sample.newcomer managementKey = true := by
  obtain ⟨hrun, hguarded⟩ := Carries.run_selfTransaction (G := Unprivileged Sample.env)
    Sample.carries Sample.refunded Sample.apply_addNewcomer Sample.unprivileged_outer
    Sample.unprivileged_inner
  exact ⟨_, hguarded, hrun, Sample.extended_ne_keyed, by decide⟩

namespace Sample

/-- The action key calls `addKey` itself. -/
def actorAdds : Msg := ⟨actor, 0, args.data⟩

theorem dispatch_actorAdds : dispatch env.code actorAdds.data = .admin addNewcomer := carries.data

theorem start_actorAdds : start env actorAdds gas keyed = .revert :=
  start_admin_of_not_permitted (.inl rfl) dispatch_actorAdds (by decide) (by decide)

theorem unprivileged_actorAdds : Unprivileged env [none] keyed.storage actorAdds := by
  refine ⟨fun _ => by decide, fun args' hcall _ => ?_⟩
  rw [dispatch_actorAdds] at hcall
  cases hcall

theorem noSelfAdministration_actorAdds :
    NoSelfAdministration env [none] keyed.storage actorAdds := by
  refine ⟨fun args' c hcall _ => ?_, fun key hcall => ?_⟩
  · rw [dispatch_actorAdds] at hcall
    cases hcall
  · rw [Initialises, dispatch_actorAdds] at hcall
    cases hcall

theorem run_actorAdds : run env (idle keyed) (transaction actorAdds gas) = some (idle keyed) :=
  run_cons.mpr ⟨_, step_call (by decide), run_cons.mpr ⟨_, step_run start_actorAdds, rfl⟩⟩

end Sample

theorem unprivileged_unchanged_sample :
    ∃ m, run Sample.env (idle Sample.keyed) (transaction Sample.actorAdds Sample.gas) = some m ∧
      m.world.storage.adminState = Sample.keyed.storage.adminState :=
  ⟨_, Sample.run_actorAdds,
    unprivileged_unchanged (guarded_transaction Sample.unprivileged_actorAdds)
      (guarded_transaction Sample.noSelfAdministration_actorAdds) Sample.run_actorAdds⟩

end UniversalLogin
