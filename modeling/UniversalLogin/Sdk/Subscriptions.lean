import UniversalLogin.Commons.Balance
import UniversalLogin.Lib.History

/-!
# Subscriptions

What happens to the callbacks of an observer that waits for one contract at a time
(`BalanceObserver.ts`, `DeploymentObserver.ts`). A callback that is called belongs to a subscription
to the address it is called with, which has not been taken back and has not been called before.
-/

namespace UniversalLogin

open History

inductive SubscriptionEvent
  | subscribed (callback : Nat) (address : JsString)
  | unsubscribed (callback : Nat)
  | called (callback : Nat) (address token : Option JsString)
  /-- The provider has answered. -/
  | read (query : BalanceQuery) (balance : Uint256)

namespace SubscriptionEvent

/-- The callback that an event is about. -/
def callback? : SubscriptionEvent → Option Nat
  | subscribed callback _ | unsubscribed callback | called callback _ _ => some callback
  | read _ _ => none

end SubscriptionEvent

open SubscriptionEvent

/-- A callback is subscribed to an address, not unsubscribed and not called. -/
structure Own (history : List SubscriptionEvent) (callback : Nat) (address : JsString) : Prop where
  subscribed : subscribed callback address ∈ history
  notUnsubscribed : unsubscribed callback ∉ history
  notCalled : called callback a t ∉ history

/-- All callbacks that are called belong to their subscription. Of the token that they are called
with, `R` holds at the address. -/
def Belong (R : List SubscriptionEvent → JsString → Option JsString → Prop) :
    List SubscriptionEvent → Prop :=
  EachAfter fun history event => ∀ callback address token, event = called callback address token →
    ∃ a, address = some a ∧ Own history callback a ∧ R history a token

variable {R : List SubscriptionEvent → JsString → Option JsString → Prop}
  {history : List SubscriptionEvent}

theorem belong_concat_called : Belong R (history ++ [called callback address token]) ↔
    Belong R history ∧ ∃ a, address = some a ∧ Own history callback a ∧ R history a token := by
  rw [Belong, eachAfter_concat]
  refine and_congr_right fun _ => ⟨fun h => h _ _ _ rfl, ?_⟩
  rintro h _ _ _ ⟨⟩
  exact h

theorem belong_concat_of_ne (h : ∀ callback address token, event ≠ called callback address token) :
    Belong R (history ++ [event]) ↔ Belong R history := by
  rw [Belong, eachAfter_concat, and_iff_left]
  exact fun callback address token heq => absurd heq (h callback address token)

/-- The numbers of the callbacks are below the number of the subscriptions. -/
def NumberedBelow (history : List SubscriptionEvent) (subscriptions : Nat) : Prop :=
  ∀ event ∈ history, ∀ callback ∈ event.callback?, callback < subscriptions

theorem NumberedBelow.concat (h : NumberedBelow history n) (hle : n ≤ m)
    (hevent : ∀ callback ∈ event.callback?, callback < m) :
    NumberedBelow (history ++ [event]) m := by
  intro event' hmem callback hcallback
  rcases List.mem_append.mp hmem with hmem | hmem
  · exact (h event' hmem callback hcallback).trans_le hle
  · cases List.mem_singleton.mp hmem
    exact hevent callback hcallback

/-- A new subscription is its own. -/
theorem NumberedBelow.own (h : NumberedBelow history n) (address : JsString) :
    Own (history ++ [subscribed n address]) n address := by
  have hold {event} (hcallback : event.callback? = some n) : event ∉ history := fun hmem =>
    absurd (h event hmem n hcallback) (lt_irrefl n)
  constructor
  · simp
  · simpa using hold rfl
  · intro a t
    simpa using hold rfl

/-- What happens to others leaves a subscription its own. -/
theorem Own.concat (h : Own history callback address)
    (hevent : ∀ callback' ∈ event.callback?, callback' ≠ callback) :
    Own (history ++ [event]) callback address := by
  have hne {event'} (hcallback : event'.callback? = some callback) (hold : event' ∉ history) :
      event' ∉ history ++ [event] := by
    simp only [List.mem_append, List.mem_singleton, not_or]
    refine ⟨hold, ?_⟩
    rintro rfl
    exact hevent callback hcallback rfl
  exact ⟨List.mem_append_left _ h.subscribed, hne rfl h.notUnsubscribed, hne rfl h.notCalled⟩

/-- Only what happens to a subscription itself makes it, or takes it back or calls it. -/
theorem own_concat_iff (h : ∀ callback address, event ≠ subscribed callback address) :
    Own (history ++ [event]) callback address ↔
      Own history callback address ∧ ∀ callback' ∈ event.callback?, callback' ≠ callback := by
  refine ⟨fun hown => ⟨⟨?_, ?_, ?_⟩, ?_⟩, fun hown => hown.1.concat hown.2⟩
  · refine (List.mem_append.mp hown.subscribed).resolve_right fun hmem => ?_
    exact h _ _ (List.mem_singleton.mp hmem).symm
  · exact fun hmem => hown.notUnsubscribed (List.mem_append_left _ hmem)
  · exact fun hmem => hown.notCalled (List.mem_append_left _ hmem)
  · rintro callback' hcallback rfl
    cases event with
    | subscribed _ _ => exact h _ _ rfl
    | unsubscribed _ =>
      cases hcallback
      exact hown.notUnsubscribed (List.mem_append_right _ List.mem_cons_self)
    | called _ _ _ =>
      cases hcallback
      exact hown.notCalled (List.mem_append_right _ List.mem_cons_self)
    | read _ _ => cases hcallback

/-! ## Who waits -/

/-- The callback and the address of a subscription. -/
def SubscriptionEvent.adds : SubscriptionEvent → Option (Nat × JsString)
  | subscribed callback address => some (callback, address)
  | _ => none

/-- A subscription waits no more when there is another one, or when it is taken back or called. -/
def SubscriptionEvent.ends : SubscriptionEvent → Nat × JsString → Bool
  | subscribed _ _, _ => true
  | event, subscription => event.callback? = some subscription.1

/-- The last subscription, unless it was taken back or called. -/
def waiting (history : List SubscriptionEvent) : List (Nat × JsString) :=
  remaining adds (fun event subscription => event.ends subscription = true) history

theorem waiting_subscribed : waiting (history ++ [subscribed callback address]) =
    [(callback, address)] := by
  rw [waiting, remaining_concat]
  simp [SubscriptionEvent.ends, SubscriptionEvent.adds]

theorem mem_waiting_concat (h : ∀ callback address, event ≠ subscribed callback address) :
    subscription ∈ waiting (history ++ [event]) ↔
      subscription ∈ waiting history ∧ ∀ callback ∈ event.callback?, callback ≠ subscription.1 := by
  rw [waiting, remaining_concat]
  cases event with
  | subscribed callback address => exact absurd rfl (h callback address)
  | _ => simp [waiting, SubscriptionEvent.ends, SubscriptionEvent.adds,
      SubscriptionEvent.callback?]

end UniversalLogin
