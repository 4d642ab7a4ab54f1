import UniversalLogin.Contracts.KeyCount

/-!
# The key table from the events

Who sees a wallet only through its events rebuilds the key table from `KeyAdded` and `KeyRemoved`.
`removeKey` reads the arguments of its event back from the entry that it deletes, so for a key that
is not registered it reports the zero key; as that key is never registered, the report does no harm.
-/

namespace UniversalLogin

open Reentrancy Transition

/-- A table of keys and their purposes after an event. -/
def applyEvent (table : Address → Option Uint256) : Event → Address → Option Uint256
  | .keyAdded key purpose => PartialMap.insert table key purpose
  | .keyRemoved key _ => PartialMap.erase table key
  | _ => table

/-- The table that the events lead to from an empty one. -/
def replay (events : List Event) : Address → Option Uint256 :=
  events.foldl applyEvent fun _ => none

@[simp] theorem replay_append_singleton :
    replay (events ++ [e]) = applyEvent (replay events) e := List.foldl_concat ..

section
variable {env : Env}

/-- The events so far tell the table. -/
structure Told (h : KeyHolder) (events : List Event) : Prop where
  sound : h.Sound
  replayed : replay events = h.keyring

namespace Told

theorem addKey {h : KeyHolder} (ht : Told h log)
    (hok : h.addKey this sender key purpose = .ok (h', events)) : Told h' (log ++ events) := by
  obtain ⟨_, hsound, hring, _⟩ := KeyHolder.addKey_keyring ht.sound hok
  obtain ⟨_, _, _, _, _, rfl⟩ := KeyHolder.addKey_eq_ok.mp hok
  refine ⟨hsound, ?_⟩
  rw [replay_append_singleton, ht.replayed, hring]
  rfl

/-- The key that `removeKey` reports is the one it erases or, like that one, not registered. -/
theorem removeKey {h : KeyHolder} (ht : Told h log)
    (hok : h.removeKey this sender key purpose = .ok (h', events)) : Told h' (log ++ events) := by
  obtain ⟨hsound, hring, _⟩ := KeyHolder.removeKey_keyring ht.sound hok
  obtain ⟨_, _, _, _, _, rfl⟩ := KeyHolder.removeKey_eq_ok.mp hok
  refine ⟨hsound, ?_⟩
  rw [replay_append_singleton, ht.replayed, hring]
  change PartialMap.erase h.keyring (h.keys key).key = PartialMap.erase h.keyring key
  rcases ht.sound.own key with hzero | hown
  · have hkey : h.keyring key = none :=
      KeyHolder.keyring_eq_none.mpr (by simp [KeyHolder.keyExist, hzero])
    have hnone : h.keyring 0 = none := KeyHolder.keyring_eq_none.mpr ht.sound.not_keyExist_zero
    rw [hzero, PartialMap.erase_of_eq_none hnone, PartialMap.erase_of_eq_none hkey]
  · rw [hown]

theorem setFirstKey {h : KeyHolder} (ht : Told h log) (hkey : key ≠ 0) :
    Told (h.setFirstKey key) (log ++ [.keyAdded key managementKey]) := by
  refine ⟨ht.sound.setFirstKey, ?_⟩
  rw [replay_append_singleton, ht.replayed]
  exact (KeyHolder.keyring_update_own hkey rfl).symm

theorem blank : Told KeyHolder.blank [] := ⟨.blank, KeyHolder.keyring_blank.symm⟩

/-- An event that is not about keys. -/
theorem append (ht : Told h log) (he : ∀ table, applyEvent table e = table) :
    Told h (log ++ [e]) :=
  ⟨ht.sound, by rw [replay_append_singleton, he, ht.replayed]⟩

theorem apply {s : Storage} (ht : Told s.toKeyHolder log)
    (happly : AdminCall.apply this sender c s = .ok (s', events)) :
    Told s'.toKeyHolder (log ++ events) := by
  refine AdminCall.apply_invariant_log (P := fun s log => Told s.toKeyHolder log) log
    (fun _ _ _ _ _ _ ht hok => ht.addKey hok) (fun _ _ _ ht => ht.append fun _ => rfl)
    (fun _ _ _ _ _ hok => ht.removeKey hok) ?_ ht happly
  intro n _ hok
  obtain ⟨_, _, _, rfl⟩ := ERC1077.setRequiredSignatures_eq_ok.mp hok
  exact ht

end Told

/-- No initialize function writes the zero key. -/
def FirstKeyNonzero (env : Env) (_ : List (Option Frame)) (s : Storage) (msg : Msg) : Prop :=
  ∀ key, Initialises env msg.data key → s.initialized = false → key ≠ 0

theorem told_kept : Kept env (FirstKeyNonzero env)
    (fun _ w => Told w.storage.toKeyHolder w.events) (fun _ _ => True) :=
  .of_world (P := fun _ w => Told w.storage.toKeyHolder w.events) (fun ht => ht)
    (fun ht => ht.append fun _ => rfl) (fun ht _ _ _ happly => ht.apply happly)
    (fun ht _ _ _ => ht) (fun ht hg hcall hinit => ht.setFirstKey (hg _ hcall hinit))
    (fun ht => ht)

theorem told_deployed (h : Deployed env first w) (hfirst : first ≠ some 0) :
    Told w.storage.toKeyHolder w.events := by
  cases h with
  | @erc1077 key _ _ => exact Told.blank.setFirstKey fun h0 => hfirst (h0 ▸ rfl)
  | proxy _ _ => exact Told.blank.append fun _ => rfl

/-- Replaying the events of a wallet gives the registered keys with their purposes, after every run
from a deployment in which neither the constructor nor an initialize function is given the zero key.
-/
theorem replay_events (hdeployed : Deployed env first w) (hfirst : first ≠ some 0)
    (hguarded : Guarded (step env) (Meets (FirstKeyNonzero env)) (idle w) acts)
    (hrun : run env (idle w) acts = some m) :
    replay m.world.events = m.world.storage.keyring :=
  (told_kept.run (Machine.satisfies_idle (told_deployed hdeployed hfirst)) hguarded
    hrun).world.replayed

end

/-- The wallet whose manager has removed a key that was never added. -/
theorem replay_events_sample :
    Sample.uncounted.events = [.keyAdded Sample.manager 1, .keyRemoved 0 0] ∧
      replay Sample.uncounted.events = Sample.uncounted.storage.keyring := by
  refine ⟨rfl, replay_events Sample.deployed_env Sample.manager_ne_zero (guarded_transaction ?_)
    Sample.run_uncounted⟩
  intro key hcall
  have hremove : dispatch Sample.env.code Sample.removeUnknown.data =
      .admin (.removeKey Sample.newcomer 0) := by decide
  rw [Initialises, hremove] at hcall
  cases hcall

end UniversalLogin
