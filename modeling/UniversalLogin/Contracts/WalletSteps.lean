import UniversalLogin.Contracts.Wallet

/-!
# What the code of a wallet can do

One inversion for the functions that a call starts (`Start.of_start`) and one for the frames that a
finished call resumes (`Resume.of_resume`). Every invariant of a wallet is derived from these two:
`Kept` lists what is to be checked of an invariant, and `Kept.run` says that it then holds in every
run whose steps meet the condition it was checked under.
-/

namespace UniversalLogin

variable {env : Env}

/-- What a call yields, in the world `w` in which its value has arrived. -/
inductive Start (env : Env) (msg : Msg) (gas : Gas) (w : World) : Yield → Prop
  | quiet : ((dispatch env.code msg.data).initialKey = none ∨
      env.code ≠ .erc1077 ∧ w.storage.masterAddress = 0) → Start env msg gas w (.done w [])
  | revert : Start env msg gas w .revert
  | administered : dispatch env.code msg.data = .admin c → msg.value = 0 →
    c.apply env.this msg.sender w.storage = .ok (s, events) →
    Start env msg gas w (.done (w.setAdministered msg.sender c s events) [])
  | executed : dispatch env.code msg.data = .executeSigned args →
    ERC1077.executeSignedChecks env.crypto env.this args w.storage = .ok () →
    Start env msg gas w (callOut env (w.setExecuted args)
      (.executing args msg.sender gas.starting (gasAfter gas.starting gas.spent) w.storage)
      args.to_ args.value args.data)
  | initialized : dispatch env.code msg.data = .initializeKey key → w.storage.initialized = false →
    Start env msg gas w (.done (w.setFirstKey key).setInitialized [])
  | registering : dispatch env.code msg.data = .initializeWithENS key ens ∧ r = none ∨
      (∃ r', dispatch env.code msg.data = .initializeWithRefund key ens r' ∧ r = some r') →
    w.storage.initialized = false →
    Start env msg gas w (callOut env (w.setFirstKey key) (.registering ens .register r)
      ens.registrar 0 (encodeRegister ens.hashLabel env.this))

theorem Start.initialises {msg : Msg}
    (hcall : dispatch env.code msg.data = .initializeWithENS key ens ∧ r = none ∨
      (∃ r', dispatch env.code msg.data = .initializeWithRefund key ens r' ∧ r = some r')) :
    (dispatch env.code msg.data).initialKey = some key := by
  rcases hcall with ⟨hcall, _⟩ | ⟨_, hcall, _⟩ <;> simp [hcall, Call.initialKey]

theorem Start.of_executeSigned (hcall : dispatch env.code msg.data = .executeSigned args) :
    Start env msg gas w (executeSigned env msg.sender args gas w) := by
  rw [executeSigned]
  cases hchecks : ERC1077.executeSignedChecks env.crypto env.this args w.storage with
  | error _ => exact .revert
  | ok u =>
    dsimp only
    cases SafeMath.sub (gasAfter gas.starting gas.spent)
        (BitVec.ofNat 256 (ERC1077.refundGas args.gasToken)) with
    | error _ => exact .revert
    | ok _ => exact .executed hcall hchecks

theorem Start.of_initializeWithENS
    (hcall : dispatch env.code msg.data = .initializeWithENS key ens ∧ r = none ∨
      (∃ r', dispatch env.code msg.data = .initializeWithRefund key ens r' ∧ r = some r')) :
    Start env msg gas w (initializeWithENS env key ens r w) := by
  rw [initializeWithENS]
  split
  · exact .revert
  · next h => exact .registering hcall (by simpa using h)

theorem Start.of_start :
    Start env msg gas (world.receive env.this msg) (start env msg gas world) := by
  rw [start]
  split
  · next hcode => exact .quiet (.inr hcode)
  split
  · next hcall => exact .quiet (.inl (congrArg Call.initialKey hcall))
  · exact .revert
  split
  · exact .revert
  next hvalue =>
  split
  · next c hcall =>
    cases happly : c.apply env.this msg.sender (world.receive env.this msg).storage with
    | error _ => exact .revert
    | ok r => exact .administered hcall (by simpa using hvalue) happly
  · next args hcall => exact .of_executeSigned hcall
  · next key hcall =>
    rw [initializeKey]
    split
    · exact .revert
    · next h => exact .initialized hcall (by simpa using h)
  · next key ens hcall => exact .of_initializeWithENS (.inl ⟨hcall, rfl⟩)
  · next key ens r hcall =>
    rw [initializeWithRefund]
    split
    · exact .revert
    split
    · exact .revert
    split
    · exact .revert
    · exact .of_initializeWithENS (.inr ⟨r, hcall, rfl⟩)
  · next hkey hens hrefund =>
    refine .quiet (.inl ?_)
    generalize dispatch env.code msg.data = call at hkey hens hrefund
    cases call with
    | initializeKey key => exact absurd rfl (hkey key)
    | initializeWithENS key ens => exact absurd rfl (hens key ens)
    | initializeWithRefund key ens r => exact absurd rfl (hrefund key ens r)
    | _ => rfl

/-- What a resumed frame yields in the world `w`. -/
inductive Resume (env : Env) (outcome : Option Bytes) (w : World) : Frame → Yield → Prop
  | revert : Resume env outcome w frame .revert
  | refunding : to_ = args.gasToken ∨ to_ = sender →
    dispatch env.code data = .fallback →
    Resume env outcome w (.executing args sender startingGas gasleft began)
      (callOut env
        (w.emit (.executedSigned (ERC1077.calculateMessageHash env.crypto env.this args.toMessage)
          args.nonce outcome.isSome))
        (.refunding args) to_ value data)
  | refunded : Resume env outcome w (.refunding args)
      (.done w (packUint256 (ERC1077.calculateMessageHash env.crypto env.this args.toMessage)))
  | registering : dispatch env.code data = .fallback →
    Resume env outcome w (.registering ens call r)
      (callOut env w (.registering ens call' r) to_ 0 data)
  | registered : Resume env outcome w (.registering ens .setName none) (.done w.setInitialized [])
  | refundingDeployment : dispatch env.code [] = .fallback →
    Resume env outcome w (.registering ens .setName (some r))
      (callOut env w.setInitialized .refundingDeployment r.relayer value [])
  | deployed : Resume env outcome w .refundingDeployment (.done w.setInitialized [])

theorem dispatch_nil : dispatch code [] = .fallback := rfl

theorem dispatch_encodeCall_nil (hsel : sel < 256 ^ 4)
    (hnone : (functions code).lookup sel = none) :
    dispatch code (encodeCall sel args) = .fallback :=
  List.append_nil (encodeCall sel args) ▸ dispatch_encodeCall hsel hnone

/-- The wallet has none of the functions that it calls on other contracts. -/
theorem dispatch_encodeTransfer : dispatch code (encodeTransfer to_ amount) = .fallback :=
  dispatch_encodeCall_nil (by decide) (by cases code <;> rfl)

theorem dispatch_encodeRegister : dispatch code (encodeRegister hashLabel owner) = .fallback :=
  dispatch_encodeCall_nil (by decide) (by cases code <;> rfl)

theorem dispatch_encodeSetResolver :
    dispatch code (encodeSetResolver node resolver) = .fallback :=
  dispatch_encodeCall_nil (by decide) (by cases code <;> rfl)

theorem dispatch_encodeSetAddr : dispatch code (encodeSetAddr node addr) = .fallback :=
  dispatch_encodeCall_nil (by decide) (by cases code <;> rfl)

theorem dispatch_encodeOwner : dispatch code (encodeOwner node) = .fallback :=
  dispatch_encodeCall_nil (by decide) (by cases code <;> rfl)

theorem dispatch_encodeSetName : dispatch code (encodeSetName name) = .fallback :=
  dispatch_encodeCall (by decide) (by cases code <;> rfl)

theorem Resume.of_resumeExecuting :
    Resume env outcome w (.executing args sender startingGas gasleft began)
      (resumeExecuting env args sender startingGas gasleft outcome.isSome gas w) := by
  simp only [resumeExecuting, refund]
  cases SafeMath.sub startingGas (gasAfter gasleft gas.spent) with
  | error _ => exact .revert
  | ok gasUsed =>
    dsimp only
    cases SafeMath.mul gasUsed args.gasPrice with
    | error _ => exact .revert
    | ok amount =>
      dsimp only
      split
      · exact .refunding (.inl rfl) dispatch_encodeTransfer
      · exact .refunding (.inr rfl) dispatch_nil

theorem Resume.of_resumeRegistering :
    Resume env outcome w (.registering ens call r)
      (resumeRegistering env ens call r outcome w) := by
  cases outcome with
  | none => exact .revert
  | some data =>
    cases call with
    | register => exact .registering dispatch_encodeSetResolver
    | setResolver => exact .registering dispatch_encodeSetAddr
    | setAddr => exact .registering dispatch_encodeOwner
    | owner =>
      simp only [resumeRegistering]
      split
      · exact .revert
      · exact .registering dispatch_encodeSetName
    | setName =>
      cases r with
      | none => exact .registered
      | some r =>
        simp only [resumeRegistering, refund]
        cases SafeMath.mul deploymentGasUsed r.gasPrice with
        | error _ => exact .revert
        | ok amount => exact .refundingDeployment dispatch_nil

theorem Resume.of_resume : Resume env outcome w frame (resume env frame outcome gas w) := by
  cases frame with
  | executing args sender startingGas gasleft began => exact .of_resumeExecuting
  | refunding args =>
    cases outcome with
    | none => exact .revert
    | some data =>
      simp only [resume, resumeRefunding]
      split
      · exact .revert
      · exact .refunded
  | registering ens call r => exact .of_resumeRegistering
  | refundingDeployment =>
    cases outcome with
    | none => exact .revert
    | some data => exact .deployed

/-! ## Single steps -/

theorem step_call {w : World} (hsender : msg.sender ≠ env.this) :
    step env ⟨w, ps, .outside⟩ (.call msg) = some ⟨w, ⟨none, w⟩ :: ps, .calling msg⟩ := by
  have hadmissible : (wallet env).admissible msg = true := by simpa [wallet] using hsender
  simp only [step, Reentrancy.step, hadmissible, if_true]

theorem step_run {w : World} (h : start env msg gas w = y) :
    step env ⟨w, ps, .calling msg⟩ (.run gas) = y.enact ps w :=
  congrArg (Reentrancy.Yield.enact ps w) h

theorem step_resume {w : World} (h : resume env f o gas w = y) :
    step env ⟨w, ⟨some f, saved⟩ :: ps, .returning o⟩ (.resume gas) = y.enact ps w :=
  congrArg (Reentrancy.Yield.enact ps w) h

/-! ## What a step does to the world -/

/-- The calldata runs an initialize function for `key`. -/
def Initialises (env : Env) (data : Bytes) (key : Address) : Prop :=
  (dispatch env.code data).initialKey = some key

/-- The variables that administrative calls write to. -/
structure AdminState where
  keys : Address → Key
  keyCount : Uint256
  requiredSignatures : Uint256

def Storage.adminState (s : Storage) : AdminState := ⟨s.keys, s.keyCount, s.requiredSignatures⟩

/-- The operations of the wallet are the only steps forward that change more than balance, events
and the initialisation flag. -/
inductive Effect (env : Env) (m : Machine) (a : Action) (m' : Machine) : Prop
  | undone : m.Undone m' → Effect env m a m'
  | quiet : m'.world.storage.adminState = m.world.storage.adminState →
    m'.world.storage.lastNonce = m.world.storage.lastNonce →
    m'.world.history = m.world.history → Effect env m a m'
  | administered : m.control = .calling msg → a = .run gas →
    dispatch env.code msg.data = .admin c →
    c.apply env.this msg.sender m.world.storage = .ok (m'.world.storage, events) →
    m'.world.history = m.world.history ++ [.administered msg.sender c] → Effect env m a m'
  | executed : m.control = .calling msg → a = .run gas →
    dispatch env.code msg.data = .executeSigned args →
    ERC1077.executeSignedChecks env.crypto env.this args m.world.storage = .ok () →
    m'.world.storage = { m.world.storage with lastNonce := m.world.storage.lastNonce + 1 } →
    m'.world.history = m.world.history ++ [.executed args] → Effect env m a m'
  | registered : m.control = .calling msg → a = .run gas → Initialises env msg.data key →
    m.world.storage.initialized = false →
    m'.world.storage.adminState = (m.world.storage.setFirstKey key).adminState →
    m'.world.storage.lastNonce = m.world.storage.lastNonce →
    m'.world.history = m.world.history ++ [.registered key] → Effect env m a m'

theorem storage_receive {w : World} : (w.receive this msg).storage = w.storage := by
  rw [World.receive]
  split <;> rfl

theorem receive_of_value_eq_zero {w : World} (hvalue : msg.value = 0) : w.receive this msg = w := by
  simp [World.receive, hvalue]

/-- What a new entry adds to anything that is read off the history entry by entry. -/
theorem World.filterMap_history_append {w w' : World} {f : Entry → Option α}
    (h : w'.history = w.history ++ [e]) :
    w'.history.filterMap f = w.history.filterMap f ++ (f e).toList := by
  rw [h, List.filterMap_append]
  cases he : f e <;> simp [he]

theorem history_receive {w : World} : (w.receive this msg).history = w.history := by
  rw [World.receive]
  split <;> rfl

/-- A call to other code or to the wallet is made with the storage as it is. -/
theorem enact_callOut {m' : Machine}
    (h : (callOut env w f to_ value data).enact ps w₀ = some m') :
    m'.world.storage = w.storage ∧ m'.world.history = w.history := by
  rw [callOut] at h
  split at h
  · cases h
    exact ⟨rfl, rfl⟩
  split at h
  · cases h
    exact ⟨rfl, rfl⟩
  · cases h
    exact ⟨rfl, rfl⟩

theorem Effect.of_start {m m' : Machine} (hcontrol : m.control = .calling msg)
    (h : (start env msg gas m.world).enact m.pending m.world = some m') :
    Effect env m (.run gas) m' := by
  generalize hy : start env msg gas m.world = y at h
  have hstart : Start env msg gas (m.world.receive env.this msg) y := hy ▸ Start.of_start
  cases hstart with
  | quiet _ =>
    obtain rfl := Reentrancy.eq_of_finish_some h
    exact .quiet (by rw [storage_receive]) (by rw [storage_receive]) history_receive
  | revert => exact .undone (.of_finish h List.suffix_rfl)
  | administered hcall _ happly =>
    obtain rfl := Reentrancy.eq_of_finish_some h
    refine .administered hcontrol rfl hcall (by rwa [storage_receive] at happly) ?_
    simp [World.setAdministered, history_receive]
  | executed hcall hchecks =>
    obtain ⟨hstorage, hhistory⟩ := enact_callOut h
    refine .executed hcontrol rfl hcall (by rwa [storage_receive] at hchecks) ?_ ?_
    · rw [hstorage, World.setExecuted, storage_receive]
    · rw [hhistory, World.setExecuted, history_receive]
  | initialized hcall hinit =>
    obtain rfl := Reentrancy.eq_of_finish_some h
    rw [storage_receive] at hinit
    refine .registered hcontrol rfl (congrArg Call.initialKey hcall) hinit ?_ ?_ ?_
    · simp [World.setFirstKey, World.setInitialized, storage_receive, Storage.adminState]
    · simp [World.setFirstKey, World.setInitialized, storage_receive, Storage.setFirstKey]
    · simp [World.setFirstKey, World.setInitialized, history_receive]
  | registering hcall hinit =>
    obtain ⟨hstorage, hhistory⟩ := enact_callOut h
    rw [storage_receive] at hinit
    refine .registered hcontrol rfl (Start.initialises hcall) hinit ?_ ?_ ?_
    · rw [hstorage, World.setFirstKey, storage_receive]
    · simp [hstorage, World.setFirstKey, storage_receive, Storage.setFirstKey]
    · rw [hhistory, World.setFirstKey, history_receive]

theorem Effect.of_resume {m m' : Machine} (hpending : m.pending = ⟨some f, s⟩ :: ps)
    (h : (resume env f o gas m.world).enact ps m.world = some m') :
    Effect env m (.resume gas) m' := by
  generalize hy : resume env f o gas m.world = y at h
  have hresume : Resume env o m.world f y := hy ▸ Resume.of_resume
  have hps : ps <:+ m.pending := hpending ▸ List.suffix_cons _ _
  cases hresume with
  | revert => exact .undone (.of_finish h hps)
  | refunding _ _ | registering _ | refundingDeployment _ =>
    obtain ⟨hstorage, hhistory⟩ := enact_callOut h
    refine .quiet ?_ ?_ hhistory <;> rw [hstorage] <;> rfl
  | refunded | registered | deployed =>
    obtain rfl := Reentrancy.eq_of_finish_some h
    exact .quiet rfl rfl rfl

theorem Effect.of_step {m m' : Machine} (h : step env m a = some m') : Effect env m a m' := by
  cases Reentrancy.Step.of_step h with
  | enter | call | perturb | leave => exact .quiet rfl rfl rfl
  | @ret ps o w _ hfinish =>
    cases o with
    | none => exact .undone (.of_finish hfinish List.suffix_rfl)
    | some d =>
      obtain rfl := Reentrancy.eq_of_finish_some hfinish
      exact .quiet rfl rfl rfl
  | run hy => exact .of_start rfl hy
  | resume hy => exact .of_resume rfl hy
  | failRun hfinish => exact .undone (.of_finish hfinish List.suffix_rfl)
  | failResume hfinish => exact .undone (.of_finish hfinish (List.suffix_cons _ _))

/-! ## Invariants of a wallet -/

/-- An initialize function has written its key and waits for a call. -/
def Frame.initialising : Frame → Bool
  | .registering .. => true
  | .refundingDeployment => true
  | _ => false

/-- An initialize function is among the waiting frames. -/
def initialising (fs : List (Option Frame)) : Bool := fs.any fun f => f.any Frame.initialising

/-- What is to be checked of a pair of predicates `P` (on worlds, below waiting frames) and `Q` (on
requests) for it to be an invariant of the runs in which every call that the wallet starts to run
meets the condition `G`. -/
structure Kept (env : Env) (G : List (Option Frame) → Storage → Msg → Prop)
    (P : List (Option Frame) → World → Prop) (Q : List (Option Frame) → Msg → Prop) : Prop where
  push : ∀ {fs w}, P fs w → P (none :: fs) w
  pop : ∀ {fs w}, P (none :: fs) w → P fs w
  balance : ∀ {fs w} b, P fs w → P fs { w with balance := b }
  call : ∀ {fs msg}, msg.sender ≠ env.this → Q (none :: fs) msg
  /-- The calls that the wallet makes on other contracts run nothing when they reach itself. -/
  request : ∀ {fs f value data}, dispatch env.code data = .fallback →
    Q (some f :: fs) ⟨env.this, value, data⟩
  administered : ∀ {fs w msg c s events}, P fs w → Q fs msg → G fs w.storage msg →
    dispatch env.code msg.data = .admin c → msg.value = 0 →
    c.apply env.this msg.sender w.storage = .ok (s, events) →
    P fs (w.setAdministered msg.sender c s events)
  executed : ∀ {fs w msg args startingGas gasleft}, P fs w → Q fs msg → G fs w.storage msg →
    dispatch env.code msg.data = .executeSigned args →
    ERC1077.executeSignedChecks env.crypto env.this args w.storage = .ok () →
    P (some (.executing args msg.sender startingGas gasleft w.storage) :: fs) (w.setExecuted args) ∧
      (args.to_ = env.this → Q (some (.executing args msg.sender startingGas gasleft w.storage) :: fs)
        ⟨env.this, args.value, args.data⟩)
  initialized : ∀ {fs w msg key}, P fs w → Q fs msg → G fs w.storage msg →
    Initialises env msg.data key → w.storage.initialized = false →
    P fs (w.setFirstKey key).setInitialized
  registering : ∀ {fs w msg key ens r}, P fs w → Q fs msg → G fs w.storage msg →
    Initialises env msg.data key → w.storage.initialized = false →
    P (some (.registering ens .register r) :: fs) (w.setFirstKey key)
  refunding : ∀ {fs w args sender startingGas gasleft began messageHash success},
    P (some (.executing args sender startingGas gasleft began) :: fs) w →
    P (some (.refunding args) :: fs) (w.emit (.executedSigned messageHash args.nonce success))
  refunded : ∀ {fs w args}, P (some (.refunding args) :: fs) w → P fs w
  registeringNext : ∀ {fs w ens c c' r}, P (some (.registering ens c r) :: fs) w →
    P (some (.registering ens c' r) :: fs) w
  registered : ∀ {fs w ens c}, P (some (.registering ens c none) :: fs) w → P fs w.setInitialized
  refundingDeployment : ∀ {fs w ens c r}, P (some (.registering ens c (some r)) :: fs) w →
    P (some .refundingDeployment :: fs) w.setInitialized
  deployed : ∀ {fs w}, P (some .refundingDeployment :: fs) w → P fs w.setInitialized

/-- Every call that the wallet starts to run meets the condition `G` in the state in which it is
made. -/
def Meets (G : List (Option Frame) → Storage → Msg → Prop) (m : Machine) (a : Action) : Prop :=
  ∀ msg gas, m.control = .calling msg → a = .run gas →
    G (Reentrancy.frames m.pending) m.world.storage msg

namespace Kept

variable {G : List (Option Frame) → Storage → Msg → Prop}
  {P : List (Option Frame) → World → Prop} {Q : List (Option Frame) → Msg → Prop}

theorem receive (hk : Kept env G P Q) (h : P fs w) : P fs (w.receive env.this msg) := by
  rw [World.receive]
  split
  · exact h
  · exact hk.balance _ h

theorem callOut (hk : Kept env G P Q) (hw : P (some f :: fs) w)
    (hq : to_ = env.this → Q (some f :: fs) ⟨env.this, value, data⟩) :
    (UniversalLogin.callOut env w f to_ value data).Keeps P Q fs := by
  rw [UniversalLogin.callOut]
  split
  · exact hw
  split
  · next hto => exact ⟨hw, hq hto⟩
  · exact ⟨hw, hk.balance _ hw⟩

theorem start (hk : Kept env G P Q) (hw : P fs w) (hq : Q fs msg) (hg : G fs w.storage msg) :
    (UniversalLogin.start env msg gas w).Keeps P Q fs := by
  have hw' : P fs (w.receive env.this msg) := hk.receive hw
  have hg' : G fs (w.receive env.this msg).storage msg := by rwa [storage_receive]
  generalize hy : UniversalLogin.start env msg gas w = y
  have hstart : Start env msg gas (w.receive env.this msg) y := hy ▸ Start.of_start
  cases hstart with
  | quiet _ => exact hw'
  | revert => trivial
  | administered hcall hvalue happly => exact hk.administered hw' hq hg' hcall hvalue happly
  | executed hcall hchecks =>
    obtain ⟨hp, hr⟩ := hk.executed hw' hq hg' hcall hchecks
    exact hk.callOut hp hr
  | initialized hcall hinit =>
    exact hk.initialized hw' hq hg' (congrArg Call.initialKey hcall) hinit
  | registering hcall hinit =>
    refine hk.callOut ?_ fun _ => hk.request dispatch_encodeRegister
    exact hk.registering hw' hq hg' (Start.initialises hcall) hinit

theorem resume (hk : Kept env G P Q) (hw : P (some f :: fs) w) :
    (UniversalLogin.resume env f outcome gas w).Keeps P Q fs := by
  generalize hy : UniversalLogin.resume env f outcome gas w = y
  have hresume : Resume env outcome w f y := hy ▸ Resume.of_resume
  cases hresume with
  | revert => trivial
  | refunding _ hdata => exact hk.callOut (hk.refunding hw) fun _ => hk.request hdata
  | refunded => exact hk.refunded hw
  | registering hdata => exact hk.callOut (hk.registeringNext hw) fun _ => hk.request hdata
  | registered => exact hk.registered hw
  | refundingDeployment hdata =>
    exact hk.callOut (hk.refundingDeployment hw) fun _ => hk.request hdata
  | deployed => exact hk.deployed hw

theorem stable (hk : Kept env G P Q) : Reentrancy.Stable (wallet env) P Q where
  push := hk.push
  pop := hk.pop
  perturb _ h := hk.balance _ h
  call h := hk.call (by simpa [wallet] using h)

/-- One step keeps the invariant. -/
theorem step (hk : Kept env G P Q) {m m' : Machine} (hm : m.Satisfies P Q) (hg : Meets G m a)
    (h : UniversalLogin.step env m a = some m') : m'.Satisfies P Q := by
  refine hm.step hk.stable h (fun msg gas hc ha => ?_) fun f s ps o gas hp _ _ => ?_
  · exact hk.start hm.world (hm.request msg hc) (hg msg gas hc ha)
  · exact hk.resume (by simpa [hp] using hm.world)

/-- Every run whose calls meet the condition keeps the invariant. -/
theorem run (hk : Kept env G P Q) {m m' : Machine} (hm : m.Satisfies P Q)
    (hg : Transition.Guarded (UniversalLogin.step env) (Meets G) m acts)
    (h : UniversalLogin.run env m acts = some m') : m'.Satisfies P Q :=
  hg.run_invariant (fun _ _ _ hm hg hstep => hk.step hm hg hstep) h hm

/-- Without a condition every run keeps the invariant. -/
theorem run_of_true (hk : Kept env (fun _ _ _ => True) P Q) {m m' : Machine}
    (hm : m.Satisfies P Q) (h : UniversalLogin.run env m acts = some m') : m'.Satisfies P Q :=
  Transition.run_invariant (fun _ _ _ hm hstep => hk.step hm (fun _ _ _ _ => trivial) hstep) h hm

/-- An invariant that looks at the waiting frames only to see whether an initialize function is
among them. -/
theorem of_world {P : Bool → World → Prop}
    (hbalance : ∀ {i w b}, P i w → P i { w with balance := b })
    (hemit : ∀ {i w messageHash nonce success}, P i w →
      P i (w.emit (.executedSigned messageHash nonce success)))
    (hadministered : ∀ {fs w msg c s events}, P (initialising fs) w → G fs w.storage msg →
      dispatch env.code msg.data = .admin c → msg.value = 0 →
      c.apply env.this msg.sender w.storage = .ok (s, events) →
      P (initialising fs) (w.setAdministered msg.sender c s events))
    (hexecuted : ∀ {fs w msg args}, P (initialising fs) w → G fs w.storage msg →
      dispatch env.code msg.data = .executeSigned args →
      ERC1077.executeSignedChecks env.crypto env.this args w.storage = .ok () →
      P (initialising fs) (w.setExecuted args))
    (hfirst : ∀ {fs w msg key}, P (initialising fs) w → G fs w.storage msg →
      Initialises env msg.data key → w.storage.initialized = false → P true (w.setFirstKey key))
    (hinitialized : ∀ {i w}, P true w → P i w.setInitialized) :
    Kept env G (fun fs w => P (initialising fs) w) (fun _ _ => True) where
  push h := h
  pop h := h
  balance _ h := hbalance h
  call _ := trivial
  request _ := trivial
  administered h _ hg hcall hvalue happly := hadministered h hg hcall hvalue happly
  executed h _ hg hcall hchecks :=
    have hp := hexecuted h hg hcall hchecks
    ⟨hp, fun _ => trivial⟩
  initialized h _ hg hcall hinit := hinitialized (hfirst h hg hcall hinit)
  registering h _ hg hcall hinit := hfirst h hg hcall hinit
  refunding h := hemit h
  refunded h := h
  registeringNext h := h
  registered h := hinitialized h
  refundingDeployment h := hinitialized h
  deployed h := hinitialized h

/-- An invariant of the storage. -/
theorem of_storage {P : Bool → Storage → Prop}
    (hadministered : ∀ {fs s msg c s' events}, P (initialising fs) s → G fs s msg →
      dispatch env.code msg.data = .admin c → msg.value = 0 →
      c.apply env.this msg.sender s = .ok (s', events) → P (initialising fs) s')
    (hexecuted : ∀ {i s n}, P i s → P i { s with lastNonce := n })
    (hfirst : ∀ {fs s msg key}, P (initialising fs) s → G fs s msg →
      Initialises env msg.data key → s.initialized = false → P true (s.setFirstKey key))
    (hinitialized : ∀ {i s}, P true s → P i { s with initialized := true }) :
    Kept env G (fun fs w => P (initialising fs) w.storage) (fun _ _ => True) :=
  of_world (P := fun i w => P i w.storage) (fun h => h) (fun h => h)
    (fun h hg hcall hvalue happly => hadministered h hg hcall hvalue happly)
    (fun h _ _ _ => hexecuted h) (fun h hg hcall hinit => hfirst h hg hcall hinit)
    (fun h => hinitialized h)

end Kept

end UniversalLogin
