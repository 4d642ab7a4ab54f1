import UniversalLogin.Contracts.KeyEvents

/-!
# Keys added in a batch

`addKeys` runs the guarded `addKey` once for each key, on the table that the iterations before have
changed. It takes a batch exactly if it is well formed for the table it starts from (`AcceptsKeys`):
an earlier iteration makes a later one fail only by registering the same key, and it never takes the
permission of the sender away.
-/

namespace UniversalLogin

open Reentrancy Transition

namespace KeyHolder

variable {h h' : KeyHolder} {this sender key : Address} {newKeys : List Address}

/-- None of the keys is zero, the sender, registered or given twice. -/
structure Fresh (sender : Address) (newKeys : List Address) (h : KeyHolder) : Prop where
  nonzero : 0 ∉ newKeys
  other : sender ∉ newKeys
  distinct : newKeys.Nodup
  unregistered : ∀ key ∈ newKeys, h.keyExist key = false

theorem Fresh.nil : Fresh sender [] h :=
  ⟨List.not_mem_nil, List.not_mem_nil, List.nodup_nil, fun _ hk => absurd hk List.not_mem_nil⟩

theorem keyExist_update (hkeys : h'.keys = Function.update h.keys key ⟨purpose, key⟩)
    (hkey : key ≠ 0) : h'.keyExist a = true ↔ a = key ∨ h.keyExist a = true := by
  by_cases ha : a = key
  · subst ha
    simpa [keyExist, hkeys] using hkey
  · simp [keyExist, hkeys, ha]

/-- What is fresh after a key has been registered. -/
theorem fresh_cons (hkeys : h'.keys = Function.update h.keys key ⟨purpose, key⟩) (hkey : key ≠ 0) :
    Fresh sender (key :: newKeys) h ↔
      key ≠ sender ∧ h.keyExist key = false ∧ Fresh sender newKeys h' := by
  have hexist : ∀ a, h'.keyExist a = false ↔ a ≠ key ∧ h.keyExist a = false := by
    intro a
    rw [← Bool.not_eq_true, keyExist_update hkeys hkey, not_or, Bool.not_eq_true]
  constructor
  · rintro ⟨hnonzero, hother, hdistinct, hfresh⟩
    rw [List.mem_cons, not_or] at hnonzero hother
    obtain ⟨hhead, htail⟩ := List.nodup_cons.mp hdistinct
    refine ⟨Ne.symm hother.1, hfresh key List.mem_cons_self, hnonzero.2, hother.2, htail, ?_⟩
    intro a ha
    refine (hexist a).mpr ⟨?_, hfresh a (List.mem_cons_of_mem _ ha)⟩
    rintro rfl
    exact hhead ha
  · rintro ⟨hsender, hunregistered, hnonzero, hother, hdistinct, hfresh⟩
    refine ⟨?_, ?_, List.nodup_cons.mpr ⟨fun hmem => ?_, hdistinct⟩, ?_⟩
    · exact fun hmem => (List.mem_cons.mp hmem).elim (fun h0 => hkey h0.symm) hnonzero
    · exact fun hmem => (List.mem_cons.mp hmem).elim (fun h0 => hsender h0.symm) hother
    · exact ((hexist key).mp (hfresh key hmem)).1 rfl
    · intro a ha
      rcases List.mem_cons.mp ha with rfl | ha
      · exact hunregistered
      · exact ((hexist a).mp (hfresh a ha)).2

/-- `addKey` on a sound table whose counter does not overflow. The entry of the zero address holds
the zero key, so that this key counts as added already. -/
theorem exists_addKey_iff (purpose : Uint256) (hs : h.Sound)
    (hroom : h.keyCount.toNat + 1 < 2 ^ 256) :
    (∃ h' events, addKey this sender key purpose h = .ok (h', events)) ↔
      (h.keyHasPurpose sender managementKey ∨ sender = this) ∧ key ≠ 0 ∧ key ≠ sender ∧
        h.keyExist key = false := by
  constructor
  · rintro ⟨h', events, hok⟩
    obtain ⟨hperm, hsender, hnew, _⟩ := addKey_eq_ok.mp hok
    have hblank : (h.keys key).key = 0 := (hs.own key).resolve_right hnew
    exact ⟨hperm, fun h0 => hnew (by rw [hblank, h0]), hsender, by simp [keyExist, hblank]⟩
  · rintro ⟨hperm, hkey, hsender, hfresh⟩
    have hblank : (h.keys key).key = 0 := by simpa [keyExist] using hfresh
    have hcount : SafeMath.add h.keyCount 1 = .ok (h.keyCount + 1) :=
      SafeMath.add_eq_ok.mpr ⟨hroom, rfl⟩
    refine ⟨⟨Function.update h.keys key ⟨purpose, key⟩, h.keyCount + 1⟩, _,
      addKey_eq_ok.mpr ⟨hperm, hsender, ?_, hcount, rfl, rfl⟩⟩
    rw [hblank]
    exact hkey.symm

/-- Another key does not change what the sender may do. -/
theorem permitted_of_addKey (hok : addKey this sender key purpose h = .ok (h', events)) :
    h'.keyHasPurpose sender managementKey ∨ sender = this := by
  obtain ⟨hperm, hsender, _, _, hkeys, _⟩ := addKey_eq_ok.mp hok
  rwa [keyHasPurpose, hkeys, Function.update_of_ne hsender.symm]

/-- The loop of `addKeys` ends on the batches that are fresh at its start. -/
theorem exists_addEach_iff (hs : h.Sound)
    (hperm : h.keyHasPurpose sender managementKey ∨ sender = this)
    (hroom : h.keyCount.toNat + pairs.length < 2 ^ 256) :
    (∃ h' events, addEach this sender pairs h = .ok (h', events)) ↔
      Fresh sender (pairs.map Prod.fst) h := by
  induction pairs generalizing h with
  | nil => exact ⟨fun _ => .nil, fun _ => ⟨h, [], rfl⟩⟩
  | cons pair rest ih =>
    obtain ⟨key, purpose⟩ := pair
    rw [List.length_cons] at hroom
    have hroom₁ : h.keyCount.toNat + 1 < 2 ^ 256 := by omega
    have hrest : ∀ {h₁ added}, addKey this sender key purpose h = .ok (h₁, added) →
        ((∃ h' events, addEach this sender rest h₁ = .ok (h', events)) ↔
          Fresh sender (rest.map Prod.fst) h₁) := by
      intro h₁ added hadd
      obtain ⟨_, hs₁, _, hcount⟩ := addKey_keyring hs hadd
      exact ih hs₁ (permitted_of_addKey hadd) (by omega)
    constructor
    · rintro ⟨h', events, hok⟩
      obtain ⟨h₁, added, more, hadd, hloop, _⟩ := addEach_cons_eq_ok.mp hok
      obtain ⟨_, hkey, hsender, hfresh⟩ :=
        (exists_addKey_iff purpose hs hroom₁).mp ⟨h₁, added, hadd⟩
      have hkeys := keys_of_addKey hadd
      exact (fresh_cons hkeys hkey).mpr ⟨hsender, hfresh, (hrest hadd).mp ⟨h', more, hloop⟩⟩
    · intro hf
      have hkey : key ≠ 0 := fun h0 => hf.nonzero (h0 ▸ List.mem_cons_self)
      have hsender : key ≠ sender := fun h0 => hf.other (h0 ▸ List.mem_cons_self)
      obtain ⟨h₁, added, hadd⟩ := (exists_addKey_iff purpose hs hroom₁).mpr
        ⟨hperm, hkey, hsender, hf.unregistered key List.mem_cons_self⟩
      have hkeys := keys_of_addKey hadd
      obtain ⟨h₂, more, hloop⟩ := (hrest hadd).mpr ((fresh_cons hkeys hkey).mp hf).2.2
      exact ⟨h₂, _, addEach_cons_eq_ok.mpr ⟨h₁, added, more, hadd, hloop, rfl⟩⟩

/-- The table has gained the keys of the pairs with their purposes, and the counter their number. -/
structure Gains (pairs : List (Address × Uint256)) (h h' : KeyHolder) : Prop where
  gained : ∀ p ∈ pairs, h'.keys p.1 = ⟨p.2, p.1⟩
  others : ∀ a, a ∉ pairs.map Prod.fst → h'.keys a = h.keys a
  keyCount : h'.keyCount.toNat = h.keyCount.toNat + pairs.length

theorem gains_of_addEach (hs : h.Sound)
    (hroom : h.keyCount.toNat + pairs.length < 2 ^ 256)
    (hok : addEach this sender pairs h = .ok (h', events)) : Gains pairs h h' := by
  induction pairs generalizing h events with
  | nil =>
    obtain ⟨rfl, _⟩ := addEach_nil_eq_ok.mp hok
    exact ⟨fun _ hp => absurd hp List.not_mem_nil, fun _ _ => rfl, rfl⟩
  | cons pair rest ih =>
    obtain ⟨key, purpose⟩ := pair
    obtain ⟨h₁, added, more, hadd, hloop, _⟩ := addEach_cons_eq_ok.mp hok
    obtain ⟨_, hs₁, _, hcount⟩ := addKey_keyring hs hadd
    rw [List.length_cons] at hroom
    have hkeys := keys_of_addKey hadd
    have hroom₁ : h₁.keyCount.toNat + rest.length < 2 ^ 256 := by omega
    have hrest := ih hs₁ hroom₁ hloop
    have hkey : key ≠ 0 :=
      ((exists_addKey_iff purpose hs (by omega)).mp ⟨h₁, added, hadd⟩).2.1
    -- a later iteration would fail on the same key
    have hlater : key ∉ rest.map Prod.fst := by
      intro hmem
      have hfresh := (exists_addEach_iff hs₁ (permitted_of_addKey hadd) hroom₁).mp ⟨_, _, hloop⟩
      have hexist := (keyExist_update hkeys hkey).mpr (.inl rfl)
      rw [hfresh.unregistered key hmem] at hexist
      cases hexist
    refine ⟨?_, ?_, ?_⟩
    · intro p hp
      rcases List.mem_cons.mp hp with rfl | hp
      · rw [hrest.others _ hlater, hkeys, Function.update_self]
      · exact hrest.gained p hp
    · intro a ha
      rw [List.map_cons, List.mem_cons, not_or] at ha
      rw [hrest.others a ha.2, hkeys, Function.update_of_ne ha.1]
    · rw [hrest.keyCount, hcount, List.length_cons]
      omega

end KeyHolder

/-! ## `addKeys` in every reachable state -/

/-- What `addKeys` asks of its sender and of the two arrays. -/
structure AcceptsKeys (this sender : Address) (newKeys : List Address) (purposes : List Uint256)
    (h : KeyHolder) : Prop where
  permitted : h.keyHasPurpose sender managementKey ∨ sender = this
  paired : newKeys.length = purposes.length
  few : newKeys.length ≤ maxKeysPerAdd
  fresh : h.Fresh sender newKeys

/-- The storage has gained the keys and is otherwise as it was. -/
structure KeysAdded (newKeys : List Address) (purposes : List Uint256) (s s' : Storage) :
    Prop where
  gained : ∀ p ∈ newKeys.zip purposes, s'.keys p.1 = ⟨p.2, p.1⟩
  others : ∀ a, a ∉ newKeys → s'.keys a = s.keys a
  keyCount : s'.keyCount.toNat = s.keyCount.toNat + newKeys.length
  lastNonce : s'.lastNonce = s.lastNonce
  requiredSignatures : s'.requiredSignatures = s.requiredSignatures

section
variable {env : Env} {newKeys : List Address} {purposes : List Uint256}

/-- The counter does not overflow in a batch. -/
theorem Bounded.room (hb : Bounded env i s) (hfew : newKeys.length ≤ maxKeysPerAdd)
    (purposes : List Uint256) :
    s.keyCount.toNat + (newKeys.zip purposes).length < 2 ^ 256 := by
  have hcount := hb.keyCount_le
  have hzip : (newKeys.zip purposes).length ≤ newKeys.length := by
    rw [List.length_zip]
    exact Nat.min_le_left _ _
  rw [maxKeysPerAdd] at hfew
  omega

theorem exists_addKeys_iff (hb : Bounded env i s) :
    (∃ s' events,
      (AdminCall.addKeys newKeys purposes).apply this sender s = .ok (s', events)) ↔
      AcceptsKeys this sender newKeys purposes s.toKeyHolder := by
  constructor
  · rintro ⟨_, _, happly⟩
    obtain ⟨_, hok, _⟩ := AdminCall.apply_addKeys_eq_ok.mp happly
    obtain ⟨hperm, hfew, hpaired, added, hloop, _⟩ := KeyHolder.addKeys_eq_ok.mp hok
    have hroom := hb.room hfew purposes
    have hfresh := (KeyHolder.exists_addEach_iff hb.sound hperm hroom).mp ⟨_, added, hloop⟩
    rw [List.map_fst_zip (le_of_eq hpaired)] at hfresh
    exact ⟨hperm, hpaired, hfew, hfresh⟩
  · rintro ⟨hperm, hpaired, hfew, hfresh⟩
    have hroom := hb.room hfew purposes
    rw [← List.map_fst_zip (le_of_eq hpaired)] at hfresh
    obtain ⟨h, added, hloop⟩ := (KeyHolder.exists_addEach_iff hb.sound hperm hroom).mpr hfresh
    have hok := KeyHolder.addKeys_eq_ok.mpr ⟨hperm, hfew, hpaired, added, hloop, rfl⟩
    exact ⟨_, _, AdminCall.apply_addKeys_eq_ok.mpr ⟨h, hok, rfl⟩⟩

theorem keysAdded_of_apply (hb : Bounded env i s)
    (happly : (AdminCall.addKeys newKeys purposes).apply this sender s = .ok (s', events)) :
    KeysAdded newKeys purposes s s' := by
  obtain ⟨h, hok, rfl⟩ := AdminCall.apply_addKeys_eq_ok.mp happly
  obtain ⟨_, hfew, hpaired, added, hloop, _⟩ := KeyHolder.addKeys_eq_ok.mp hok
  have hgains := KeyHolder.gains_of_addEach hb.sound (hb.room hfew purposes) hloop
  refine ⟨hgains.gained, ?_, ?_, rfl, rfl⟩
  · intro a ha
    exact hgains.others a (by rwa [List.map_fst_zip (le_of_eq hpaired)])
  · rw [hgains.keyCount, List.length_zip, ← hpaired, Nat.min_self]

/-- A call of an administrative function that does not take effect puts the world back. -/
theorem step_admin_error (hm : Reachable env m) (hcalling : m.control = .calling msg)
    (hcall : dispatch env.code msg.data = .admin c)
    (hno : ¬ ∃ s events, c.apply env.this msg.sender m.world.storage = .ok (s, events))
    (hstep : step env m (.run gas) = some m') :
    m'.control = .returning none ∧ m'.world = m.world := by
  have hcode := HasCode.reachable hm
  obtain ⟨first, w₀, acts, _, hrun⟩ := hm
  obtain ⟨f, ps, hpending⟩ := Machine.Made.run hrun msg hcalling
  obtain ⟨w, pending, _⟩ := m
  obtain rfl : pending = ⟨f, w⟩ :: ps := hpending
  cases hcalling
  rw [step_run (start_admin_error hcode hcall hno)] at hstep
  cases hstep
  exact ⟨rfl, rfl⟩

theorem step_admin (hm : Reachable env m) (hcalling : m.control = .calling msg)
    (hvalue : msg.value = 0) (hcall : dispatch env.code msg.data = .admin c)
    (happly : c.apply env.this msg.sender m.world.storage = .ok (s, events))
    (hstep : step env m (.run gas) = some m') :
    m'.control = .returning (some []) ∧ m'.world.storage = s := by
  have hcode := HasCode.reachable hm
  obtain ⟨w, ps, _⟩ := m
  cases hcalling
  rw [step_run (start_admin hcode hvalue hcall happly)] at hstep
  obtain rfl := Reentrancy.eq_of_finish_some hstep
  exact ⟨rfl, rfl⟩

/-- In every reachable state, for every sender: `addKeys` succeeds exactly on what it should accept
and adds just these keys. A call with anything else puts the world back in which it was made. -/
theorem addKeys_all_or_nothing (hm : Reachable env m) (newKeys : List Address)
    (purposes : List Uint256) :
    (∀ sender, (∃ s events, (AdminCall.addKeys newKeys purposes).apply env.this sender
        m.world.storage = .ok (s, events)) ↔
      AcceptsKeys env.this sender newKeys purposes m.world.storage.toKeyHolder) ∧
    (∀ sender s events, (AdminCall.addKeys newKeys purposes).apply env.this sender
        m.world.storage = .ok (s, events) → KeysAdded newKeys purposes m.world.storage s) ∧
    ∀ msg gas m', m.control = .calling msg →
      dispatch env.code msg.data = .admin (.addKeys newKeys purposes) →
      step env m (.run gas) = some m' →
      (msg.value = 0 →
        AcceptsKeys env.this msg.sender newKeys purposes m.world.storage.toKeyHolder →
        m'.control = .returning (some []) ∧
          KeysAdded newKeys purposes m.world.storage m'.world.storage) ∧
      (¬ AcceptsKeys env.this msg.sender newKeys purposes m.world.storage.toKeyHolder →
        m'.control = .returning none ∧ m'.world = m.world) := by
  have hb := Bounded.reachable hm
  refine ⟨fun _ => exists_addKeys_iff hb, fun _ _ _ happly => keysAdded_of_apply hb happly, ?_⟩
  intro msg gas m' hcalling hcall hstep
  constructor
  · intro hvalue haccepts
    obtain ⟨s, events, happly⟩ := (exists_addKeys_iff hb).mpr haccepts
    obtain ⟨hcontrol, hstorage⟩ := step_admin hm hcalling hvalue hcall happly hstep
    exact ⟨hcontrol, hstorage ▸ keysAdded_of_apply hb happly⟩
  · intro hrefused
    exact step_admin_error hm hcalling hcall (mt (exists_addKeys_iff hb).mp hrefused) hstep

end

/-- The manager of a wallet with two keys adds two more. -/
theorem addKeys_all_or_nothing_sample :
    ∃ s events,
      (AdminCall.addKeys [Sample.newcomer, 7] [2, 1]).apply Sample.wallet Sample.manager
        Sample.keyed.storage = .ok (s, events) ∧
      KeysAdded [Sample.newcomer, 7] [2, 1] Sample.keyed.storage s := by
  obtain ⟨haccepts, hadded, _⟩ :=
    addKeys_all_or_nothing Sample.keyed_reachable [Sample.newcomer, 7] [2, 1]
  have hfresh : Sample.keyed.storage.Fresh Sample.manager [Sample.newcomer, 7] := by
    refine ⟨by decide, by decide, by decide, fun key hkey => ?_⟩
    rcases List.mem_pair.mp hkey with rfl | rfl <;> decide
  obtain ⟨s, events, hok⟩ :=
    (haccepts Sample.manager).mpr ⟨.inl (by decide), rfl, by decide, hfresh⟩
  exact ⟨s, events, hok, hadded Sample.manager s events hok⟩

end UniversalLogin
