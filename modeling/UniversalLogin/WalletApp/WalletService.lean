import UniversalLogin.Lib.Transition
import UniversalLogin.Sdk.FutureWallet

/-!
# The wallet of the wallet application

The wallet that a browser holds (`WalletService.ts`) while its user creates wallets
(`Login.tsx`) and connects to others (`ConnectToWallet.ts`). A creation sets its future wallet,
waits for its balance, has it deployed and then reports so, and nothing but the state of the service
stops another creation or connection from coming between. As long as users disconnect only where the
name of their wallet is shown (`UserDropdown.tsx`), the wallet that is held is that of one creation
or connection, with the name that was given to it, and no deployment is lost (`wallet_owned`).
-/

namespace UniversalLogin.WalletApp

open Transition

/-! ## The service -/

structure UserWallet where
  name : JsString
  /-- It is null where a name was not found. -/
  contractAddress : Option JsString
  privateKey : JsString

inductive WalletState
  | none
  | future
  | deployed
  deriving DecidableEq

/-- What `userWallet` refers to. -/
inductive HeldWallet
  | future (wallet : FutureWallet)
  | user (wallet : UserWallet)

namespace HeldWallet

def contractAddress : HeldWallet → Option JsString
  | future wallet => some wallet.contractAddress
  | user wallet => wallet.contractAddress

def privateKey : HeldWallet → JsString
  | future wallet => wallet.privateKey
  | user wallet => wallet.privateKey

end HeldWallet

inductive WalletError
  | userWalletNotFound
  | walletOverriden
  | futureWalletNotSet
  /-- A property of `undefined` was read. -/
  | typeError
  /-- `Error` with a message of its own. -/
  | thrown (message : String)
  deriving DecidableEq

def WalletError.message : WalletError → String
  | userWalletNotFound => "User wallet not found"
  | walletOverriden => "Wallet cannot be overrided"
  | futureWalletNotSet => "Future wallet was not set"
  | typeError => "Cannot destructure property of undefined"
  | thrown message => message

structure WalletService where
  userWallet : Option HeldWallet
  state : WalletState

namespace WalletService

def initial : WalletService := ⟨none, .none⟩

def disconnect : WalletService := { state := .none, userWallet := none }

variable (service : WalletService)

def walletDeployed : Bool := service.state = .deployed

def isAuthorized : Bool := service.walletDeployed

def setFutureWallet (userWallet : FutureWallet) : Except WalletError WalletService :=
  if service.state ≠ .none then .error .walletOverriden
  else .ok { state := .future, userWallet := some (.future userWallet) }

def setDeployed (name : JsString) : Except WalletError WalletService :=
  if service.state ≠ .future then .error .futureWalletNotSet
  else
    match service.userWallet with
    | none => .error .typeError
    | some wallet => .ok {
        state := .deployed
        userWallet := some (.user ⟨name, wallet.contractAddress, wallet.privateKey⟩) }

def connect (userWallet : UserWallet) : Except WalletError WalletService :=
  if service.state ≠ .none then .error .walletOverriden
  else .ok { state := .deployed, userWallet := some (.user userWallet) }

end WalletService

namespace WalletPresenter

/-- A future wallet has no name. -/
def getName (service : WalletService) : Except WalletError (Option JsString) :=
  match service.userWallet with
  | none => .error (.thrown "UserWallet not found")
  | some wallet =>
    if service.state ≠ .deployed then .error (.thrown "UserWallet is not deployed yet")
    else
      match wallet with
      | .future _ => .ok none
      | .user wallet => .ok (some wallet.name)

def getContractAddress (service : WalletService) : Except WalletError (Option JsString) :=
  match service.userWallet with
  | none => .error (.thrown "UserWallet not found")
  | some wallet => .ok wallet.contractAddress

end WalletPresenter

/-! ## The users -/

/-- How far `onCreateCLick` has come. -/
inductive CreationStage
  | creating
  | waitingForBalance (wallet : FutureWallet)
  | deploying (wallet : FutureWallet)
  | deployed (wallet : FutureWallet)
  /-- There is no future wallet, or it could not be set. -/
  | failed
  /-- The wait for the balance or the deployment was rejected. -/
  | rejected (wallet : FutureWallet)
  /-- The wallet is deployed, but that could not be set. -/
  | lost (wallet : FutureWallet)

structure Creation where
  name : JsString
  stage : CreationStage

/-- How far `connectToWallet` has come. -/
inductive ConnectionStage
  | resolving
  | requesting (contractAddress : Option JsString)
  | connected (wallet : UserWallet)
  | failed

/-- The connection after its first `await`. -/
def ConnectionStage.ofAddress : Option (Option JsString) → ConnectionStage
  | none => failed
  | some address => requesting address

structure Connection where
  name : JsString
  stage : ConnectionStage

structure App where
  service : WalletService
  creations : List Creation
  connections : List Connection

namespace App

def initial : App := ⟨.initial, [], []⟩

inductive Action
  | create (name : JsString)
  /-- `sdk.createFutureWallet` is resolved, or rejected. -/
  | futureWallet (i : Nat) (wallet : Option FutureWallet)
  | balance (i : Nat) (resolved : Bool)
  | deploy (i : Nat) (resolved : Bool)
  | connect (name : JsString)
  /-- `sdk.getWalletContractAddress` is resolved, or rejected. -/
  | contractAddress (i : Nat) (address : Option (Option JsString))
  /-- `sdk.connect` is resolved to a private key, or rejected. -/
  | privateKey (i : Nat) (privateKey : Option JsString)
  | disconnect

variable (app : App)

def setCreation (i : Nat) (creation : Creation) (stage : CreationStage) : App :=
  { app with creations := app.creations.set i { creation with stage } }

def setConnection (i : Nat) (connection : Connection) (stage : ConnectionStage) : App :=
  { app with connections := app.connections.set i { connection with stage } }

/-- `createFutureWallet` after its `await`. -/
def createFutureWallet (i : Nat) (creation : Creation) : Option FutureWallet → App
  | none => app.setCreation i creation .failed
  | some wallet =>
    match app.service.setFutureWallet wallet with
    | .error _ => app.setCreation i creation .failed
    | .ok service => { app.setCreation i creation (.waitingForBalance wallet) with service }

/-- `onCreateCLick` after the deployment. -/
def setDeployed (i : Nat) (creation : Creation) (wallet : FutureWallet) : App :=
  match app.service.setDeployed creation.name with
  | .error _ => app.setCreation i creation (.lost wallet)
  | .ok service => { app.setCreation i creation (.deployed wallet) with service }

/-- `connectToWallet` after its second `await`. -/
def connectWallet (i : Nat) (connection : Connection) (contractAddress : Option JsString) :
    Option JsString → App
  | none => app.setConnection i connection .failed
  | some privateKey =>
    let wallet : UserWallet := ⟨connection.name, contractAddress, privateKey⟩
    match app.service.connect wallet with
    | .error _ => app.setConnection i connection .failed
    | .ok service => { app.setConnection i connection (.connected wallet) with service }

def step : Action → Option App
  | .create name => some { app with creations := app.creations ++ [⟨name, .creating⟩] }
  | .futureWallet i wallet =>
    match app.creations[i]? with
    | some ⟨name, .creating⟩ => some (app.createFutureWallet i ⟨name, .creating⟩ wallet)
    | _ => none
  | .balance i resolved =>
    match app.creations[i]? with
    | some ⟨name, .waitingForBalance wallet⟩ =>
      some (app.setCreation i ⟨name, .waitingForBalance wallet⟩
        (if resolved then .deploying wallet else .rejected wallet))
    | _ => none
  | .deploy i resolved =>
    match app.creations[i]? with
    | some ⟨name, .deploying wallet⟩ =>
      some (if resolved then app.setDeployed i ⟨name, .deploying wallet⟩ wallet
        else app.setCreation i ⟨name, .deploying wallet⟩ (.rejected wallet))
    | _ => none
  | .connect name => some { app with connections := app.connections ++ [⟨name, .resolving⟩] }
  | .contractAddress i address =>
    match app.connections[i]? with
    | some ⟨name, .resolving⟩ =>
      some (app.setConnection i ⟨name, .resolving⟩ (.ofAddress address))
    | _ => none
  | .privateKey i privateKey =>
    match app.connections[i]? with
    | some ⟨name, .requesting address⟩ =>
      some (app.connectWallet i ⟨name, .requesting address⟩ address privateKey)
    | _ => none
  | .disconnect => some { app with service := .disconnect }

/-! ## Whose wallet it is -/

end App

/-- The wallet that a creation has set and not had deployed yet. -/
def CreationStage.pendingWallet : CreationStage → Option FutureWallet
  | waitingForBalance wallet | deploying wallet => some wallet
  | _ => none

namespace App

/-- The creation or connection that has set the wallet of the service; the index is that of a
creation that may still change it. -/
inductive Holder (app : App) : Option Nat → Prop
  | nobody : app.service = .initial → Holder app none
  | creation {i : Nat} : app.service = ⟨some (.future w), .future⟩ →
    app.creations[i]? = some ⟨name, stage⟩ →
    stage.pendingWallet = some w ∨ stage = .rejected w → Holder app (some i)
  | created {i : Nat} {w : FutureWallet} :
    app.service = ⟨some (.user ⟨name, some w.contractAddress, w.privateKey⟩), .deployed⟩ →
    app.creations[i]? = some ⟨name, .deployed w⟩ → Holder app none
  | connected {i : Nat} {w : UserWallet} : app.service = ⟨some (.user w), .deployed⟩ →
    app.connections[i]? = some ⟨w.name, .connected w⟩ → Holder app none

/-- Only this creation may still report its wallet as deployed. -/
def OnlyPending (app : App) (o : Option Nat) : Prop :=
  ∀ (j : Nat) creation, app.creations[j]? = some creation →
    creation.stage.pendingWallet ≠ none → o = some j

/-- The wallet of the service is that of one creation or connection, which is the only one that may
still change it, and all wallets that were deployed were set so. A creation that was rejected leaves
its wallet to the service for good. -/
structure Owned (app : App) : Prop where
  holder : ∃ o, app.Holder o ∧ app.OnlyPending o
  rejected : ∀ (j : Nat) name w, app.creations[j]? = some ⟨name, .rejected w⟩ →
    app.service = ⟨some (.future w), .future⟩ ∧ app.OnlyPending none
  kept : ∀ (j : Nat) creation, app.creations[j]? = some creation → ∀ wallet,
    creation.stage ≠ .lost wallet

variable {app app' : App}

/-- The stages of others stay as they are. -/
theorem getElem?_set_of_some {l : List α} {i j : Nat} (h : l[i]? = some b) :
    (l.set i a)[j]? = if i = j then some a else l[j]? := by
  obtain ⟨hi, _⟩ := List.getElem?_eq_some_iff.mp h
  rw [List.getElem?_set, if_pos hi]

theorem getElem?_append_of_some {l l' : List α} {i : Nat} (h : l[i]? = some b) :
    (l ++ l')[i]? = some b := by
  obtain ⟨hi, _⟩ := List.getElem?_eq_some_iff.mp h
  rw [List.getElem?_append_left hi, h]

/-- A holder is not concerned by what happens to the others. -/
theorem Holder.mono (h : app.Holder o) (hservice : app'.service = app.service)
    (hcreations : ∀ (j : Nat) creation, app.creations[j]? = some creation →
      creation.stage ≠ .creating → app'.creations[j]? = some creation)
    (hconnections : ∀ (j : Nat) name wallet,
      app.connections[j]? = some ⟨name, .connected wallet⟩ →
      app'.connections[j]? = some ⟨name, .connected wallet⟩) : app'.Holder o := by
  cases h with
  | nobody hs => exact .nobody (hservice.trans hs)
  | creation hs hi hstage =>
    refine .creation (hservice.trans hs) (hcreations _ _ hi ?_) hstage
    rintro rfl
    rcases hstage with h | h <;> cases h
  | created hs hi => exact .created (hservice.trans hs) (hcreations _ _ hi nofun)
  | connected hs hi => exact .connected (hservice.trans hs) (hconnections _ _ _ hi)

/-- A creation that has not set a wallet begins or fails. -/
theorem Owned.of_creations (h : app.Owned) (hservice : app'.service = app.service)
    (hconnections : app'.connections = app.connections)
    (hcreations : ∀ (j : Nat) creation, app.creations[j]? = some creation →
      creation.stage ≠ .creating → app'.creations[j]? = some creation)
    (hnew : ∀ (j : Nat) creation, app'.creations[j]? = some creation →
      app.creations[j]? = some creation ∨ creation.stage = .creating ∨
        creation.stage = .failed) : app'.Owned := by
  obtain ⟨⟨o, hholder, honly⟩, hrejected, hkept⟩ := h
  have honly' {o} (honly : app.OnlyPending o) : app'.OnlyPending o := by
    intro j creation hj hpending
    rcases hnew j creation hj with hold | hstage | hstage
    · exact honly j creation hold hpending
    · exact absurd (by rw [hstage]; rfl) hpending
    · exact absurd (by rw [hstage]; rfl) hpending
  constructor
  · refine ⟨o, hholder.mono hservice hcreations (fun j name wallet hj => ?_), honly' honly⟩
    rwa [hconnections]
  · intro j name w hj
    rcases hnew j _ hj with hold | hstage | hstage
    · obtain ⟨hs, hnone⟩ := hrejected j name w hold
      exact ⟨hservice.trans hs, honly' hnone⟩
    · cases hstage
    · cases hstage
  · intro j creation hj wallet
    rcases hnew j creation hj with hold | hstage | hstage
    · exact hkept j creation hold wallet
    · rw [hstage]
      nofun
    · rw [hstage]
      nofun

/-- A creation fails before it has set a wallet. -/
theorem Owned.setCreation_failed (h : app.Owned)
    (hi : app.creations[i]? = some ⟨name, .creating⟩) :
    (app.setCreation i ⟨name, .creating⟩ .failed).Owned := by
  refine h.of_creations rfl rfl (fun j creation hj hstage => ?_) (fun j creation hj => ?_)
  · change (app.creations.set i _)[j]? = _
    rw [getElem?_set_of_some hi]
    split
    · next hij =>
      subst hij
      cases hi.symm.trans hj
      exact absurd rfl hstage
    · exact hj
  · change (app.creations.set i _)[j]? = _ at hj
    rw [getElem?_set_of_some hi] at hj
    split at hj
    · cases hj
      exact .inr (.inr rfl)
    · exact .inl hj

theorem Holder.eq_none (h : app.Holder o) (hstate : app.service.state ≠ .future) : o = none := by
  cases h with
  | nobody _ | created _ _ | connected _ _ => rfl
  | creation hs _ _ => exact absurd (by rw [hs]) hstate

/-- A creation that waits is the one that has set the wallet. -/
theorem Owned.of_pending (h : app.Owned) (hi : app.creations[i]? = some ⟨name, stage⟩)
    (hpending : stage.pendingWallet = some w) :
    app.service = ⟨some (.future w), .future⟩ ∧ app.OnlyPending (some i) := by
  obtain ⟨o, hholder, honly⟩ := h.holder
  obtain rfl : o = some i := honly i _ hi (by rw [hpending]; nofun)
  refine ⟨?_, honly⟩
  cases hholder with
  | creation hs hi' hstage =>
    cases hi.symm.trans hi'
    rcases hstage with hstage | rfl
    · cases hpending.symm.trans hstage
      exact hs
    · cases hpending

/-- While a creation waits, none has been rejected. -/
theorem Owned.not_rejected {i : Nat} {stage : CreationStage} (h : app.Owned)
    (hi : app.creations[i]? = some ⟨name, stage⟩)
    (hpending : stage.pendingWallet = some w) (j : Nat) (name' : JsString) (w' : FutureWallet) :
    app.creations[j]? ≠ some ⟨name', .rejected w'⟩ := by
  intro hj
  obtain ⟨_, hnone⟩ := h.rejected j name' w' hj
  cases hnone i _ hi (by rw [hpending]; nofun)

/-- One creation sets the wallet, or goes on with the wallet that it has set. -/
theorem owned_of_future (hi : app.creations[i]? = some ⟨name, before⟩)
    (hothers : ∀ (j : Nat) creation, app.creations[j]? = some creation →
      creation.stage.pendingWallet ≠ none → i = j)
    (hnone : ∀ (j : Nat) name' w', app.creations[j]? ≠ some ⟨name', .rejected w'⟩)
    (hkept : ∀ (j : Nat) creation, app.creations[j]? = some creation → ∀ wallet,
      creation.stage ≠ .lost wallet)
    (hstage : stage.pendingWallet = some w ∨ stage = .rejected w) :
    Owned { app.setCreation i ⟨name, before⟩ stage with
      service := ⟨some (.future w), .future⟩ } where
  holder := by
    refine ⟨some i, .creation rfl (?_ : (app.creations.set i _)[i]? = some ⟨name, stage⟩) hstage,
      fun j creation hj hpending => ?_⟩
    · rw [getElem?_set_of_some hi, if_pos rfl]
    · change (app.creations.set i _)[j]? = _ at hj
      rw [getElem?_set_of_some hi] at hj
      split at hj
      · next hij => rw [hij]
      · exact congrArg some (hothers j creation hj hpending)
  rejected j name' w' hj := by
    change (app.creations.set i _)[j]? = _ at hj
    rw [getElem?_set_of_some hi] at hj
    split at hj
    · cases hj
      rcases hstage with h | h
      · cases h
      cases h
      refine ⟨rfl, fun k creation hk hpending => ?_⟩
      change (app.creations.set i _)[k]? = _ at hk
      rw [getElem?_set_of_some hi] at hk
      split at hk
      · cases hk
        exact absurd rfl hpending
      · next hik => exact absurd (hothers k creation hk hpending) hik
    · exact absurd hj (hnone j name' w')
  kept j creation hj wallet := by
    change (app.creations.set i _)[j]? = _ at hj
    rw [getElem?_set_of_some hi] at hj
    split at hj
    · cases hj
      rintro rfl
      rcases hstage with h | h <;> cases h
    · exact hkept j creation hj wallet

theorem Owned.createFutureWallet (h : app.Owned)
    (hi : app.creations[i]? = some ⟨name, .creating⟩) (result : Option FutureWallet) :
    (app.createFutureWallet i ⟨name, .creating⟩ result).Owned := by
  cases result with
  | none => exact h.setCreation_failed hi
  | some wallet =>
    rw [App.createFutureWallet, WalletService.setFutureWallet]
    by_cases hstate : app.service.state = .none
    · obtain ⟨o, hholder, honly⟩ := h.holder
      obtain rfl := hholder.eq_none (by rw [hstate]; nofun)
      rw [if_neg (not_not.mpr hstate)]
      refine owned_of_future hi (fun j creation hj hpending => ?_) (fun j name' w' hj => ?_) h.kept
        (.inl rfl)
      · cases honly j creation hj hpending
      · obtain ⟨hs, _⟩ := h.rejected j name' w' hj
        rw [hs] at hstate
        cases hstate
    · rw [if_pos hstate]
      exact h.setCreation_failed hi

/-- The wallet of a creation that has been deployed is set under its own name. -/
theorem Owned.setDeployed (h : app.Owned)
    (hi : app.creations[i]? = some ⟨name, .deploying w⟩) :
    (app.setDeployed i ⟨name, .deploying w⟩ w).Owned := by
  obtain ⟨hs, honly⟩ := h.of_pending hi rfl
  have hset : app.service.setDeployed name =
      .ok ⟨some (.user ⟨name, some w.contractAddress, w.privateKey⟩), .deployed⟩ := by
    rw [hs]
    rfl
  rw [App.setDeployed, hset]
  constructor
  · refine ⟨none, .created rfl (?_ : (app.creations.set i _)[i]? = some ⟨name, .deployed w⟩),
      fun j creation hj hpending => ?_⟩
    · rw [getElem?_set_of_some hi, if_pos rfl]
    · change (app.creations.set i _)[j]? = _ at hj
      rw [getElem?_set_of_some hi] at hj
      split at hj
      · cases hj
        exact absurd rfl hpending
      · next hij =>
        cases honly j creation hj hpending
        exact absurd rfl hij
  · intro j name' w' hj
    change (app.creations.set i _)[j]? = _ at hj
    rw [getElem?_set_of_some hi] at hj
    split at hj
    · cases hj
    · exact absurd hj (h.not_rejected hi rfl j name' w')
  · intro j creation hj wallet
    change (app.creations.set i _)[j]? = _ at hj
    rw [getElem?_set_of_some hi] at hj
    split at hj
    · cases hj
      nofun
    · exact h.kept j creation hj wallet

/-- What becomes of a connection that has not come to its end concerns no creation. -/
theorem Owned.setConnection (h : app.Owned)
    (hi : app.connections[i]? = some ⟨name, before⟩)
    (hbefore : ∀ wallet, before ≠ .connected wallet)
    (stage : ConnectionStage) : (app.setConnection i ⟨name, before⟩ stage).Owned := by
  obtain ⟨⟨o, hholder, honly⟩, hrejected, hkept⟩ := h
  refine ⟨⟨o, hholder.mono rfl (fun _ _ hj _ => hj) fun j name' wallet hj => ?_, honly⟩, hrejected,
    hkept⟩
  change (app.connections.set i _)[j]? = _
  rw [getElem?_set_of_some hi]
  split
  · next hij =>
    subst hij
    cases hi.symm.trans hj
    exact absurd rfl (hbefore wallet)
  · exact hj

theorem Owned.connectWallet (h : app.Owned)
    (hi : app.connections[i]? = some ⟨name, .requesting address⟩) (result : Option JsString) :
    (app.connectWallet i ⟨name, .requesting address⟩ address result).Owned := by
  cases result with
  | none => exact h.setConnection hi nofun .failed
  | some privateKey =>
    rw [App.connectWallet]
    by_cases hstate : app.service.state = .none
    · have hset : app.service.connect ⟨name, address, privateKey⟩ =
          .ok ⟨some (.user ⟨name, address, privateKey⟩), .deployed⟩ := by
        rw [WalletService.connect, if_neg (not_not.mpr hstate)]
      simp only [hset]
      obtain ⟨o, hholder, honly⟩ := h.holder
      obtain rfl := hholder.eq_none (by rw [hstate]; nofun)
      refine ⟨⟨none, .connected (i := i) rfl ?_, honly⟩, fun j name' w' hj => ?_, h.kept⟩
      · change (app.connections.set i _)[i]? = _
        rw [getElem?_set_of_some hi, if_pos rfl]
      · obtain ⟨hs, _⟩ := h.rejected j name' w' hj
        rw [hs] at hstate
        cases hstate
    · have hrefused : app.service.connect ⟨name, address, privateKey⟩ =
          .error .walletOverriden := by
        rw [WalletService.connect, if_pos hstate]
      simp only [hrefused]
      exact h.setConnection hi nofun .failed

/-- The button to disconnect stands where the name of the wallet is shown. -/
def NameShown (app : App) : Action → Prop
  | .disconnect => ∃ name, WalletPresenter.getName app.service = .ok name
  | _ => True

theorem state_of_getName {service : WalletService}
    (h : WalletPresenter.getName service = .ok name) : service.state = .deployed := by
  rw [WalletPresenter.getName] at h
  split at h
  · cases h
  · by_contra hstate
    rw [if_pos hstate] at h
    cases h

theorem Owned.step (h : app.Owned) (hshown : NameShown app a) (hstep : app.step a = some app') :
    app'.Owned := by
  cases a with
  | create name =>
    cases hstep
    refine h.of_creations rfl rfl (fun j creation hj _ => getElem?_append_of_some hj)
      fun j creation hj => ?_
    change (app.creations ++ _)[j]? = _ at hj
    rw [List.getElem?_append] at hj
    split at hj
    · exact .inl hj
    · obtain ⟨_, hnew⟩ := List.mem_singleton.mp (List.mem_of_getElem? hj)
      exact .inr (.inl rfl)
  | futureWallet i wallet =>
    rw [App.step] at hstep
    split at hstep
    · next name hi =>
      cases hstep
      exact h.createFutureWallet hi wallet
    · cases hstep
  | balance i resolved =>
    rw [App.step] at hstep
    split at hstep
    · next name wallet hi =>
      cases hstep
      obtain ⟨hs, honly⟩ := h.of_pending hi rfl
      let stage : CreationStage := if resolved then .deploying wallet else .rejected wallet
      have hstage : stage.pendingWallet = some wallet ∨ stage = .rejected wallet := by
        cases resolved
        · exact .inr rfl
        · exact .inl rfl
      have hkeep := owned_of_future hi
        (fun j creation hj hpending => Option.some.inj (honly j creation hj hpending))
        (h.not_rejected hi rfl) h.kept hstage
      rw [← hs] at hkeep
      exact hkeep
    · cases hstep
  | deploy i resolved =>
    rw [App.step] at hstep
    split at hstep
    · next name wallet hi =>
      cases resolved with
      | true =>
        cases hstep
        exact h.setDeployed hi
      | false =>
        cases hstep
        obtain ⟨hs, honly⟩ := h.of_pending hi rfl
        have hkeep := owned_of_future (w := wallet) hi (fun j creation hj hpending =>
          Option.some.inj (honly j creation hj hpending)) (h.not_rejected hi rfl) h.kept (.inr rfl)
        rw [← hs] at hkeep
        exact hkeep
    · cases hstep
  | connect name =>
    cases hstep
    obtain ⟨⟨o, hholder, honly⟩, hrejected, hkept⟩ := h
    exact ⟨⟨o, hholder.mono rfl (fun _ _ hj _ => hj) fun _ _ _ hj => getElem?_append_of_some hj,
      honly⟩, hrejected, hkept⟩
  | contractAddress i address =>
    rw [App.step] at hstep
    split at hstep
    · next name hi =>
      cases hstep
      exact h.setConnection hi nofun _
    · cases hstep
  | privateKey i privateKey =>
    rw [App.step] at hstep
    split at hstep
    · next name address hi =>
      cases hstep
      exact h.connectWallet hi privateKey
    · cases hstep
  | disconnect =>
    cases hstep
    obtain ⟨name, hname⟩ := hshown
    obtain ⟨o, hholder, honly⟩ := h.holder
    have hstate := state_of_getName hname
    obtain rfl := hholder.eq_none (by rw [hstate]; nofun)
    refine ⟨⟨none, .nobody rfl, honly⟩, fun j name' w' hj => ?_, h.kept⟩
    obtain ⟨hs, _⟩ := h.rejected j name' w' hj
    rw [hs] at hstate
    cases hstate

theorem owned_initial : initial.Owned where
  holder := ⟨none, .nobody rfl, fun j creation hj => by cases hj⟩
  rejected j name w hj := by cases hj
  kept j creation hj := by cases hj

/-- In every interleaving of creations and connections, as long as users disconnect only where the
name of their wallet is shown, the wallet that is held is the future wallet of one creation, or that
wallet under the name that was typed for it, or the one that a connection was made to; every wallet
that was deployed was set; and after a creation whose wait or deployment was rejected nothing else
is ever set. -/
theorem wallet_owned (hrun : Transition.run step initial acts = some app)
    (hshown : Guarded step NameShown initial acts) : app.Owned :=
  hshown.run_invariant (fun _ _ _ h hC hstep => h.step hC hstep) hrun owned_initial

namespace Sample

def first : FutureWallet := ⟨"0x01".toList, "0xa1".toList, "0xb1".toList⟩

def second : FutureWallet := ⟨"0x02".toList, "0xa2".toList, "0xb2".toList⟩

def beginning : List Action := [.create "a".toList, .futureWallet 0 (some first)]

/-- A wallet is created, and its user disconnects. -/
def regular : List Action := beginning ++ [.balance 0 true, .deploy 0 true, .disconnect]

def disconnected : App := ⟨.initial, [⟨"a".toList, .deployed first⟩], []⟩

theorem run_regular : Transition.run step initial regular = some disconnected ∧
    Guarded step NameShown initial regular := by
  refine run_guarded_cons trivial rfl ?_
  refine run_guarded_cons trivial rfl ?_
  refine run_guarded_cons trivial rfl ?_
  refine run_guarded_cons trivial rfl ?_
  exact run_guarded_cons ⟨some "a".toList, rfl⟩ rfl ⟨rfl, trivial⟩

/-- A user who disconnects while a wallet is being deployed, and creates another one. -/
def hasty : List Action :=
  beginning ++ [.balance 0 true, .disconnect, .create "b".toList, .futureWallet 1 (some second),
    .deploy 0 true]

end Sample

theorem wallet_owned_sample : Sample.disconnected.Owned :=
  wallet_owned Sample.run_regular.1 Sample.run_regular.2

/-- The second wallet is set under the name of the first. -/
example : (Transition.run step initial Sample.hasty).map (·.service) =
    some ⟨some (.user ⟨"a".toList, some "0xa2".toList, "0x02".toList⟩), .deployed⟩ := rfl

end App

end UniversalLogin.WalletApp
