import UniversalLogin.Contracts.Nonces

/-!
# Initialisation

`onlyInitializing` looks at the flag before the body of an initialize function and sets it after the
body. The body of `initializeWithENS` calls contracts that its caller has chosen, and in these calls
the flag is still down: the registrar can call `initialize` and register a key of its own. In runs
in which no initialize function is called that way, a wallet is initialised once
(`initialised_once`).
-/

namespace UniversalLogin

open Reentrancy Transition

def Entry.registered? : Entry → Option Address
  | .registered key => some key
  | _ => none

def Entry.isAdministered : Entry → Bool
  | .administered .. => true
  | _ => false

/-- The keys that initialize functions have written and no failure has taken back. -/
def registrations (w : World) : List Address := w.history.filterMap Entry.registered?

/-- No administrative call has taken effect. -/
def Unadministered (w : World) : Prop := w.history.any Entry.isAdministered = false

/-- The storage that a wallet with one management key has. -/
structure HasFirstKey (s : Storage) (key : Address) : Prop where
  keys : s.keys = Function.update KeyHolder.blank.keys key ⟨managementKey, key⟩
  keyCount : s.keyCount = 1
  requiredSignatures : s.requiredSignatures = 1

section
variable {env : Env}

/-! ## The calls of `registerENS` -/

variable {w : World} {msg : Msg} {key : Address} {ens : RegisterArgs} {gas : Gas}

theorem start_initializeKey (hcode : HasCode env w.storage) (hvalue : msg.value = 0)
    (hcall : dispatch env.code msg.data = .initializeKey key)
    (hfalse : w.storage.initialized = false) :
    start env msg gas w = .done (w.setFirstKey key).setInitialized [] := by
  rw [start_eq hcode hvalue, hcall]
  simp [initializeKey, hfalse]

theorem callOut_zero (hto : to_ ≠ env.this) :
    callOut env w frame to_ 0 data = .other w w frame := by
  simp [callOut, hto]

theorem start_initializeWithENS (hcode : HasCode env w.storage) (hvalue : msg.value = 0)
    (hcall : dispatch env.code msg.data = .initializeWithENS key ens)
    (hfalse : w.storage.initialized = false) (hregistrar : ens.registrar ≠ env.this) :
    start env msg gas w =
      .other (w.setFirstKey key) (w.setFirstKey key) (.registering ens .register none) := by
  rw [start_eq hcode hvalue, hcall]
  simp only [initializeWithENS, hfalse, Bool.false_eq_true, if_false]
  exact callOut_zero hregistrar

/-- Other code answers the calls of `registerENS`; `owner` is answered with `reply`. -/
def ensReplies (reply : Bytes) (gas : Gas) : List Action :=
  [.ret (some []), .resume gas, .ret (some []), .resume gas, .ret (some []), .resume gas,
    .ret (some reply), .resume gas, .ret (some []), .resume gas, .resume gas]

theorem run_ensReplies {G : List (Option Frame) → Storage → Msg → Prop}
    (hens : ens.ens ≠ env.this) (hresolver : ens.resolver ≠ env.this)
    (hreply : ¬ reply.length < 32) (hreverse : (wordAt reply 0).setWidth 160 ≠ env.this) :
    run env ⟨w, [⟨some (.registering ens .register none), s⟩, ⟨none, w₀⟩], .outside⟩
        (ensReplies reply gas) = some (idle w.setInitialized) ∧
      Guarded (step env) (Meets G)
        ⟨w, [⟨some (.registering ens .register none), s⟩, ⟨none, w₀⟩], .outside⟩
        (ensReplies reply gas) := by
  have hret {m : Machine} {outcome} : Meets G m (.ret outcome) := fun _ _ _ h => by cases h
  have hresume {m : Machine} {gas} : Meets G m (.resume gas) := fun _ _ _ h => by cases h
  have hnext {c c' to_ data d} (hto : to_ ≠ env.this)
      (h : resume env (.registering ens c none) (some d) gas w =
        callOut env w (.registering ens c' none) to_ 0 data) :
      resume env (.registering ens c none) (some d) gas w =
        .other w w (.registering ens c' none) := h.trans (callOut_zero hto)
  have howner : resume env (.registering ens .owner none) (some reply) gas w =
      callOut env w (.registering ens .setName none) ((wordAt reply 0).setWidth 160) 0
        (encodeSetName ens.name) := by
    simp only [resume, resumeRegistering, if_neg hreply]
  refine run_guarded_cons hret rfl ?_
  refine run_guarded_cons hresume (step_resume (hnext hens rfl)) ?_
  refine run_guarded_cons hret rfl ?_
  refine run_guarded_cons hresume (step_resume (hnext hresolver rfl)) ?_
  refine run_guarded_cons hret rfl ?_
  refine run_guarded_cons hresume (step_resume (hnext hens rfl)) ?_
  refine run_guarded_cons hret rfl ?_
  refine run_guarded_cons hresume (step_resume (hnext hreverse howner)) ?_
  refine run_guarded_cons hret rfl ?_
  refine run_guarded_cons hresume (step_resume rfl) ?_
  exact run_guarded_cons hresume rfl ⟨rfl, trivial⟩

/-! ## One key -/

/-- An initialize function does not pass its guard while another one is under way. -/
def NotReentered (env : Env) (fs : List (Option Frame)) (s : Storage) (msg : Msg) : Prop :=
  ∀ key, Initialises env msg.data key → s.initialized = false → initialising fs = false

/-- Before the first initialize function nothing is registered; from its body on, its key is. -/
structure OneKey (i : Bool) (w : World) : Prop where
  before : w.storage.initialized = false → i = false →
    registrations w = [] ∧ (Unadministered w → w.storage.toKeyHolder = KeyHolder.blank)
  after : w.storage.initialized = true ∨ i = true →
    ∃ key, registrations w = [key] ∧ (Unadministered w → HasFirstKey w.storage key)

namespace OneKey

theorem registrations_append {w w' : World} (h : w'.history = w.history ++ [e]) :
    registrations w' = registrations w ++ e.registered?.toList :=
  World.filterMap_history_append h

theorem unadministered_append {w w' : World} (h : w'.history = w.history ++ [e]) :
    Unadministered w' ↔ Unadministered w ∧ e.isAdministered = false := by
  simp [Unadministered, h]

theorem setAdministered {w : World} (ho : OneKey i w)
    (hinit : s.initialized = w.storage.initialized) :
    OneKey i (w.setAdministered sender c s events) := by
  have hadministered : ¬ Unadministered (w.setAdministered sender c s events) := by
    rw [unadministered_append (e := .administered sender c) rfl]
    exact fun h => (nomatch h.2)
  have hregistrations : registrations (w.setAdministered sender c s events) = registrations w :=
    (registrations_append (e := .administered sender c) rfl).trans (List.append_nil _)
  constructor
  · intro hfalse hi
    rw [hregistrations]
    exact ⟨(ho.before (hinit ▸ hfalse) hi).1, fun h => absurd h hadministered⟩
  · intro hbegun
    rw [hregistrations]
    obtain ⟨key, hkey, _⟩ := ho.after (hinit ▸ hbegun)
    exact ⟨key, hkey, fun h => absurd h hadministered⟩

theorem setExecuted {w : World} (ho : OneKey i w) : OneKey i (w.setExecuted args) := by
  have hregistrations : registrations (w.setExecuted args) = registrations w :=
    (registrations_append (e := .executed args) rfl).trans (List.append_nil _)
  have hun : Unadministered (w.setExecuted args) → Unadministered w := fun h =>
    ((unadministered_append (e := .executed args) rfl).mp h).1
  constructor
  · intro hfalse hi
    obtain ⟨hnone, hblank⟩ := ho.before hfalse hi
    exact ⟨hregistrations.trans hnone, fun h => hblank (hun h)⟩
  · intro hbegun
    obtain ⟨key, hkey, hfirst⟩ := ho.after hbegun
    refine ⟨key, hregistrations.trans hkey, fun h => ?_⟩
    obtain ⟨hkeys, hcount, hrequired⟩ := hfirst (hun h)
    exact ⟨hkeys, hcount, hrequired⟩

theorem setFirstKey {w : World} (ho : OneKey false w) (hfalse : w.storage.initialized = false) :
    OneKey true (w.setFirstKey key) := by
  obtain ⟨hnone, hblank⟩ := ho.before hfalse rfl
  refine ⟨fun _ hi => (nomatch hi), fun _ => ⟨key, ?_, fun h => ?_⟩⟩
  · rw [registrations_append (e := .registered key) (w := w) rfl, hnone]
    rfl
  · have hunadministered := ((unadministered_append (e := .registered key) (w := w) rfl).mp h).1
    refine ⟨?_, rfl, rfl⟩
    change Function.update w.storage.keys key ⟨managementKey, key⟩ = _
    rw [hblank hunadministered]

theorem setInitialized {w : World} (ho : OneKey true w) : OneKey i w.setInitialized := by
  refine ⟨fun hfalse => (nomatch hfalse), fun _ => ?_⟩
  obtain ⟨key, hkey, hfirst⟩ := ho.after (.inr rfl)
  refine ⟨key, hkey, fun h => ?_⟩
  obtain ⟨hkeys, hcount, hrequired⟩ := hfirst h
  exact ⟨hkeys, hcount, hrequired⟩

theorem kept : Kept env (NotReentered env) (fun fs w => OneKey (initialising fs) w)
    (fun _ _ => True) := by
  refine .of_world (P := OneKey) ?_ ?_ ?_ ?_ ?_ setInitialized
  · exact fun ho => ⟨ho.before, ho.after⟩
  · exact fun ho => ⟨ho.before, ho.after⟩
  · exact fun ho _ _ _ happly => ho.setAdministered (AdminCall.apply_frame happly).2.1
  · exact fun ho _ _ _ => ho.setExecuted
  · intro fs w msg key ho hg hcall hfalse
    rw [hg key hcall hfalse] at ho
    exact ho.setFirstKey hfalse

theorem deployed (h : Deployed env none w) : OneKey false w := by
  cases h with
  | proxy => exact ⟨fun _ _ => ⟨rfl, fun _ => rfl⟩, fun h => by rcases h with h | h <;> cases h⟩

end OneKey

/-- In runs in which no initialize function is re-entered, the initialize functions register one key
at most, and exactly one once the wallet is initialised. Until an administrative call takes effect,
it is the only key, `keyCount` is one and so is `requiredSignatures`. -/
theorem initialised_once (hdeployed : Deployed env none w)
    (hguarded : Guarded (step env) (Meets (NotReentered env)) (idle w) acts)
    (hrun : run env (idle w) acts = some m) :
    (registrations m.world).length ≤ 1 ∧
      (m.world.storage.initialized = true → registrations m.world ≠ []) ∧
      ∀ key ∈ registrations m.world, registrations m.world = [key] ∧
        (Unadministered m.world → HasFirstKey m.world.storage key) := by
  have ho : OneKey (initialising (frames m.pending)) m.world :=
    (OneKey.kept.run (Machine.satisfies_idle (OneKey.deployed hdeployed)) hguarded hrun).world
  by_cases hbegun : m.world.storage.initialized = true ∨ initialising (frames m.pending) = true
  · obtain ⟨key, hkey, hfirst⟩ := ho.after hbegun
    rw [hkey]
    refine ⟨Nat.le_refl 1, fun _ => List.cons_ne_nil _ _, fun key' hkey' => ?_⟩
    obtain rfl := List.mem_singleton.mp hkey'
    exact ⟨rfl, hfirst⟩
  · obtain ⟨hfalse, hi⟩ := not_or.mp hbegun
    have hnone := (ho.before (by simpa using hfalse) (by simpa using hi)).1
    rw [hnone]
    exact ⟨Nat.zero_le 1, fun htrue => absurd htrue hfalse, nofun⟩

end

namespace Sample

def proxyEnv : Env := ⟨crypto, wallet, .walletMaster⟩

/-- A proxy that has just been deployed. -/
def proxy : World := ⟨(Proxy.constructor 0xa2).1, 0, (Proxy.constructor 0xa2).2, []⟩

theorem deployed_proxy : Deployed proxyEnv none proxy := .proxy (by decide) (by decide)

theorem hasCode_proxy : HasCode proxyEnv proxy.storage := .inr (by decide)

/-- A registration with the name "alex". -/
def ens : RegisterArgs where
  hashLabel := 0x12
  name := [97, 108, 101, 120]
  node := 0x34
  ens := 0xb1
  registrar := 0xb2
  resolver := 0xb3

def encodeInitializeWithENS (key : Address) (ens : RegisterArgs) : Bytes :=
  encodeCall initializeWithENSSelector [key.setWidth 256, ens.hashLabel, 224, ens.node,
    ens.ens.setWidth 256, ens.registrar.setWidth 256, ens.resolver.setWidth 256] ++
    encodeBytes ens.name

def initialise : Msg := ⟨relayer, 0, encodeInitializeWithENS manager ens⟩

/-- The registrar calls `initialize` with a key of its own. -/
def reenter : Msg := ⟨ens.registrar, 0, encodeCall initializeKeySelector [actor.setWidth 256]⟩

set_option maxRecDepth 20000 in
theorem dispatch_initialise :
    dispatch .walletMaster initialise.data = .initializeWithENS manager ens := by decide

theorem dispatch_reenter :
    dispatch .walletMaster reenter.data = .initializeKey actor := by decide

/-- What `owner` returns. -/
def reply : Bytes := packUint256 0xb4

def registering : List (Reentrancy.Pending Frame World) :=
  [⟨some (.registering ens .register none), proxy.setFirstKey manager⟩, ⟨none, proxy⟩]

theorem run_replies {G : List (Option Frame) → Storage → Msg → Prop} {w : World} :
    run proxyEnv ⟨w, registering, .outside⟩ (ensReplies reply gas) = some (idle w.setInitialized) ∧
      Guarded (step proxyEnv) (Meets G) ⟨w, registering, .outside⟩ (ensReplies reply gas) :=
  run_ensReplies (by decide) (by decide) (by decide) (by decide)

theorem start_initialise : start proxyEnv initialise gas proxy =
    .other (proxy.setFirstKey manager) (proxy.setFirstKey manager)
      (.registering ens .register none) :=
  start_initializeWithENS hasCode_proxy rfl dispatch_initialise rfl (by decide)

/-- The wallet after an initialisation in which no code calls back. -/
def initialised : World := (proxy.setFirstKey manager).setInitialized

theorem run_initialised :
    run proxyEnv (idle proxy) ([.call initialise, .run gas] ++ ensReplies reply gas) =
        some (idle initialised) ∧
      Guarded (step proxyEnv) (Meets (NotReentered proxyEnv)) (idle proxy)
        ([.call initialise, .run gas] ++ ensReplies reply gas) := by
  refine run_guarded_cons nofun (step_call (by decide)) ?_
  refine run_guarded_cons ?_ (step_run start_initialise) run_replies
  rintro _ _ ⟨⟩ _ _ _ _
  rfl

theorem start_reenter : start proxyEnv reenter gas (proxy.setFirstKey manager) =
    .done ((proxy.setFirstKey manager).setFirstKey actor).setInitialized [] :=
  start_initializeKey hasCode_proxy rfl dispatch_reenter rfl

/-- The wallet after an initialisation in which the registrar has called back. -/
def reentered : World :=
  ((proxy.setFirstKey manager).setFirstKey actor).setInitialized.setInitialized

theorem run_reentered :
    run proxyEnv (idle proxy) ([.call initialise, .run gas, .call reenter, .run gas, .resume gas] ++
      ensReplies reply gas) = some (idle reentered) := by
  refine run_cons.mpr ⟨_, step_call (by decide), run_cons.mpr ⟨_, step_run start_initialise, ?_⟩⟩
  refine run_cons.mpr ⟨_, step_call (by decide), run_cons.mpr ⟨_, step_run start_reenter, ?_⟩⟩
  exact run_cons.mpr ⟨_, rfl, (run_replies (G := fun _ _ _ => True)).1⟩

end Sample

theorem initialised_once_sample :
    registrations Sample.initialised = [Sample.manager] ∧
      HasFirstKey Sample.initialised.storage Sample.manager := by
  obtain ⟨hrun, hguarded⟩ := Sample.run_initialised
  obtain ⟨_, _, hkeys⟩ := initialised_once Sample.deployed_proxy hguarded hrun
  obtain ⟨hone, hfirst⟩ := hkeys Sample.manager (List.mem_singleton_self _)
  exact ⟨hone, hfirst (rfl : Unadministered Sample.initialised)⟩

/-- The registrar calls `initialize` back: two keys are registered and one is counted. -/
theorem initialised_twice :
    Deployed Sample.proxyEnv none Sample.proxy ∧
    run Sample.proxyEnv (idle Sample.proxy) ([.call Sample.initialise, .run Sample.gas,
      .call Sample.reenter, .run Sample.gas, .resume Sample.gas] ++
      ensReplies Sample.reply Sample.gas) = some (idle Sample.reentered) ∧
    registrations Sample.reentered = [Sample.manager, Sample.actor] ∧
    Sample.reentered.storage.keyHasPurpose Sample.manager managementKey = true ∧
    Sample.reentered.storage.keyHasPurpose Sample.actor managementKey = true ∧
    Sample.reentered.storage.keyCount = 1 :=
  ⟨Sample.deployed_proxy, Sample.run_reentered, rfl, by decide, by decide, rfl⟩

end UniversalLogin
