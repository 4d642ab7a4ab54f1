import Mathlib.Data.List.Chain
import UniversalLogin.WalletApp.WalletService

/-!
# The balance of the wallet application

The balance that the application shows (`BalanceService.ts`, `EtherBalanceService.ts`). A loop reads
the balance of the wallet again and again and passes it to the subscribers when it has changed. Each
`start` begins another loop, and one that was stopped may still wait for an answer, so several loops
may pass balances, of several wallets, in any order. Still each subscriber is passed every change
since it subscribed and nothing else, and each balance was read of a wallet that was deployed when
it was asked for (`balances_passed`).
-/

namespace UniversalLogin.WalletApp

open Transition

/-- What a loop waits for. -/
inductive BalanceLoop
  | reading (contractAddress : Option JsString)
  /-- For the zero that stands for no wallet. -/
  | zero
  | sleeping
  | ended

structure BalanceSubscription where
  active : Bool
  /-- What was passed to the callback. -/
  passed : List Uint256

structure BalanceService where
  running : Bool
  lastBalance : Uint256
  subscriptions : List BalanceSubscription
  loops : List BalanceLoop
  walletService : WalletService
  /-- The values that `lastBalance` has had. -/
  changes : List Uint256
  /-- The addresses of wallets that were deployed, and the answers of the provider. -/
  deployed : List (Option JsString)
  answered : List (Option JsString × Uint256)

/-- The address of a wallet that is deployed. -/
def WalletService.deployedAddress (service : WalletService) : Option (Option JsString) :=
  if service.walletDeployed then service.userWallet.map (·.contractAddress) else none

namespace BalanceService

def initial : BalanceService := ⟨false, 0, [], [], .initial, [0], [], []⟩

inductive Action
  | start
  | stop
  /-- `walletService` is in another state. -/
  | wallet (walletService : WalletService)
  /-- The provider answers a loop, or its promise is rejected. -/
  | balance (i : Nat) (balance : Option Uint256)
  | zero (i : Nat)
  /-- A loop has slept. -/
  | wake (i : Nat)
  | subscribe
  | unsubscribe (i : Nat)

variable (service : BalanceService)

/-- `getBalance` up to its `await`. -/
def getBalance : BalanceLoop :=
  if service.walletService.walletDeployed then
    match service.walletService.userWallet with
    | some wallet => .reading wallet.contractAddress
    -- reading `contractAddress` of `undefined` throws
    | none => .ended
  else .zero

/-- The condition of the loop, and what comes after it. -/
def loop : BalanceLoop := if service.running then service.getBalance else .ended

def setLoop (i : Nat) (loop : BalanceLoop) : BalanceService :=
  { service with loops := service.loops.set i loop }

def answer (contractAddress : Option JsString) (balance : Uint256) : BalanceService :=
  { service with answered := service.answered ++ [(contractAddress, balance)] }

def emit (balance : Uint256) : BalanceService :=
  { service with
    subscriptions := service.subscriptions.map fun s =>
      if s.active then { s with passed := s.passed ++ [balance] } else s }

/-- The loop after a balance is known. -/
def changed (balance : Uint256) : BalanceService :=
  if balance = service.lastBalance then service
  else
    { service.emit balance with
      lastBalance := balance
      changes := service.changes ++ [balance] }

def setWallet (walletService : WalletService) : BalanceService :=
  { service with
    walletService
    deployed := service.deployed ++ walletService.deployedAddress.toList }

def step : Action → Option BalanceService
  | .start =>
    let started := { service with running := true }
    some { started with loops := started.loops ++ [started.loop] }
  | .stop => some { service with running := false }
  | .wallet walletService => some (service.setWallet walletService)
  | .balance i balance =>
    match service.loops[i]? with
    | some (.reading address) =>
      match balance with
      | none => some (service.setLoop i .ended)
      | some balance =>
        some (((service.answer address balance).changed balance).setLoop i .sleeping)
    | _ => none
  | .zero i =>
    match service.loops[i]? with
    | some .zero => some ((service.changed 0).setLoop i .sleeping)
    | _ => none
  | .wake i =>
    match service.loops[i]? with
    | some .sleeping => some (service.setLoop i service.loop)
    | _ => none
  | .subscribe =>
    some { service with
      subscriptions := service.subscriptions ++ [⟨true, [service.lastBalance]⟩] }
  | .unsubscribe i =>
    match service.subscriptions[i]? with
    | some s =>
      some { service with subscriptions := service.subscriptions.set i { s with active := false } }
    | none => none

/-! ## What is passed -/

/-- The values passed to a callback are changes in a row; the last one too, while it is subscribed.
-/
structure Passes (changes : List Uint256) (s : BalanceSubscription) : Prop where
  row : s.passed <:+: changes
  current : s.active = true → s.passed ≠ [] ∧ s.passed <:+ changes

/-- What was passed and where it came from. -/
structure Faithful (service : BalanceService) : Prop where
  last : service.changes.getLast? = some service.lastBalance
  distinct : service.changes.IsChain (· ≠ ·)
  passes : ∀ s ∈ service.subscriptions, Passes service.changes s
  sources : ∀ balance ∈ service.changes, balance = 0 ∨ ∃ a, (a, balance) ∈ service.answered
  answered : ∀ p ∈ service.answered, p.1 ∈ service.deployed
  reading : ∀ a, .reading a ∈ service.loops → a ∈ service.deployed
  wallet : ∀ a ∈ service.walletService.deployedAddress, a ∈ service.deployed

variable {service} {service' : BalanceService}

theorem Passes.emit {changes : List Uint256} (h : Passes changes s) (balance : Uint256) :
    Passes (changes ++ [balance])
      (if s.active then { s with passed := s.passed ++ [balance] } else s) := by
  by_cases hactive : s.active = true
  · have hsuffix : s.passed ++ [balance] <:+ changes ++ [balance] := by
      obtain ⟨before, hbefore⟩ := (h.current hactive).2
      exact ⟨before, by rw [← hbefore, List.append_assoc]⟩
    rw [if_pos hactive]
    exact ⟨hsuffix.isInfix, fun _ => ⟨by simp, hsuffix⟩⟩
  · rw [if_neg hactive]
    exact ⟨List.infix_append_of_infix_left h.row, fun h => absurd h hactive⟩

theorem Faithful.setLoop {loop : BalanceLoop} (h : service.Faithful)
    (hloop : ∀ a, loop = .reading a → a ∈ service.deployed) :
    (service.setLoop i loop).Faithful where
  __ := h
  reading a ha := by
    rcases List.mem_or_eq_of_mem_set ha with hold | rfl
    · exact h.reading a hold
    · exact hloop a rfl

/-- Every balance that is known to the loop may be passed. -/
theorem Faithful.changed (h : service.Faithful)
    (hsource : balance = 0 ∨ ∃ a, (a, balance) ∈ service.answered) :
    (service.changed balance).Faithful := by
  rw [BalanceService.changed]
  split
  · exact h
  · next hne =>
    constructor
    case last => exact List.getLast?_concat
    case distinct =>
      refine h.distinct.append (List.isChain_singleton _) fun x hx y hy => ?_
      cases hy
      rw [h.last] at hx
      cases hx
      exact Ne.symm hne
    case passes =>
      intro s' hs'
      obtain ⟨s, hs, rfl⟩ := List.mem_map.mp hs'
      exact (h.passes s hs).emit balance
    case sources =>
      intro b hb
      rcases List.mem_append.mp hb with hb | hb
      · exact h.sources b hb
      · cases List.mem_singleton.mp hb
        exact hsource
    case answered => exact h.answered
    case reading => exact h.reading
    case wallet => exact h.wallet

theorem reading_of_getBalance (h : service.getBalance = .reading a) :
    a ∈ service.walletService.deployedAddress := by
  rw [getBalance] at h
  split at h
  · next hdeployed =>
    split at h
    · next wallet hwallet =>
      cases h
      rw [WalletService.deployedAddress, if_pos hdeployed, hwallet]
      rfl
    · cases h
  · cases h

/-- A loop asks for the balance of a wallet that is deployed. -/
theorem reading_of_loop (h : service.loop = .reading a) :
    a ∈ service.walletService.deployedAddress := by
  rw [loop] at h
  split at h
  · exact reading_of_getBalance h
  · cases h

theorem Faithful.answer (h : service.Faithful) (ha : .reading a ∈ service.loops)
    (balance : Uint256) :
    (service.answer a balance).Faithful where
  __ := h
  sources b hb := (h.sources b hb).imp id fun ⟨a, ha⟩ => ⟨a, List.mem_append_left _ ha⟩
  answered p hp := by
    rcases List.mem_append.mp hp with hp | hp
    · exact h.answered p hp
    · cases List.mem_singleton.mp hp
      exact h.reading a ha

theorem Faithful.step (h : service.Faithful) (hstep : service.step a = some service') :
    service'.Faithful := by
  cases a with
  | start =>
    cases hstep
    exact { h with
      reading := fun a ha => by
        rcases List.mem_append.mp ha with hold | hnew
        · exact h.reading a hold
        · have hloop := (List.mem_singleton.mp hnew).symm
          have hdeployed := reading_of_loop hloop
          exact h.wallet a hdeployed }
  | stop =>
    cases hstep
    exact { h with }
  | wallet walletService =>
    cases hstep
    exact { h with
      answered := fun p hp => List.mem_append_left _ (h.answered p hp)
      reading := fun a ha => List.mem_append_left _ (h.reading a ha)
      wallet := fun a ha => List.mem_append_right _ (Option.mem_toList.mpr ha) }
  | balance i balance =>
    rw [BalanceService.step] at hstep
    split at hstep
    · next address hi =>
      cases balance with
      | none =>
        cases hstep
        exact h.setLoop nofun
      | some balance =>
        cases hstep
        have hanswer := h.answer (List.mem_of_getElem? hi) balance
        refine (hanswer.changed (.inr ⟨address, ?_⟩)).setLoop nofun
        exact List.mem_append_right _ List.mem_cons_self
    · cases hstep
  | zero i =>
    rw [BalanceService.step] at hstep
    split at hstep
    · cases hstep
      exact (h.changed (.inl rfl)).setLoop nofun
    · cases hstep
  | wake i =>
    rw [BalanceService.step] at hstep
    split at hstep
    · cases hstep
      exact h.setLoop fun a ha => h.wallet a (reading_of_loop ha)
    · cases hstep
  | subscribe =>
    cases hstep
    have hlast : [service.lastBalance] <:+ service.changes := by
      obtain ⟨before, hbefore⟩ := List.getLast?_eq_some_iff.mp h.last
      exact ⟨before, hbefore.symm⟩
    exact { h with
      passes := fun s hs => by
        rcases List.mem_append.mp hs with hold | hnew
        · exact h.passes s hold
        · cases List.mem_singleton.mp hnew
          exact ⟨hlast.isInfix, fun _ => ⟨List.cons_ne_nil _ _, hlast⟩⟩ }
  | unsubscribe i =>
    rw [BalanceService.step] at hstep
    split at hstep
    · next s hi =>
      cases hstep
      exact { h with
        passes := fun s' hs => by
          rcases List.mem_or_eq_of_mem_set hs with hold | rfl
          · exact h.passes s' hold
          · exact ⟨(h.passes s (List.mem_of_getElem? hi)).row, nofun⟩ }
    · cases hstep

theorem faithful_initial : initial.Faithful where
  last := rfl
  distinct := List.isChain_singleton _
  passes _ h := nomatch h
  sources _ hb := .inl (List.mem_singleton.mp hb)
  answered _ h := nomatch h
  reading _ h := nomatch h
  wallet _ h := nomatch h

namespace Sample

def connected : WalletService :=
  ⟨some (.user ⟨"alex.mylogin.eth".toList, some "0xa1".toList, "0x01".toList⟩), .deployed⟩

/-- Two loops are answered in the other order, and the callback is unsubscribed between. -/
def crossed : List Action :=
  [.wallet connected, .start, .stop, .subscribe, .start, .balance 1 (some 7), .unsubscribe 0,
    .balance 0 (some 5), .wallet .initial, .wake 1, .zero 1]

def afterCrossed : BalanceService where
  running := true
  lastBalance := 0
  subscriptions := [⟨false, [0, 7]⟩]
  loops := [.sleeping, .sleeping]
  walletService := .initial
  changes := [0, 7, 5, 0]
  deployed := [some "0xa1".toList]
  answered := [(some "0xa1".toList, 7), (some "0xa1".toList, 5)]

theorem run_crossed : Transition.run step initial crossed = some afterCrossed := rfl

end Sample

end BalanceService

end UniversalLogin.WalletApp
