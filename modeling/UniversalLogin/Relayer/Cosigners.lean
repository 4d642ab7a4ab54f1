import UniversalLogin.Relayer.CosignedCalls

/-!
# Two signers of one message

Neither `messages` nor `finalMessages` takes a second row of a message, and a call whose insertion
is refused is rejected. As long as no insertion meets a row that is already there, the tables are in
the end those of one call after the other, in the order in which the signatures were stored.
`signature_key_pairs` takes any row, so that a signature that is sent twice is stored once only if
the first of the two insertions comes before the second call looks for it.
-/

namespace UniversalLogin

open Async Labelled

namespace Cosigned

variable {ethers : Ethers} {wallets : Address → Option Storage} (c : Cosigned ethers wallets)

/-! ## Insertions that meet no row -/

/-- The table that takes one row for a message does not have one when a row is inserted. -/
def InsertsNew (m : Database × (Bool → ServiceCall MessageStatus))
    (e : Bool × Answered Query Query.Answer JsError) : Prop :=
  match e.2.1 with
  | .insertMessage row => ∀ r ∈ m.1.messages, r.messageHash ≠ row.messageHash
  | .insertFinalMessage messageHash _ => ∀ r ∈ m.1.finalMessages, r.messageHash ≠ messageHash
  | _ => True

/-- A signature is stored where it is not stored yet. -/
def StoresNewSignature (m : Database × (Bool → ServiceCall MessageStatus))
    (e : Bool × Answered Query Query.Answer JsError) : Prop :=
  match e.2.1 with
  | .insertSignatureKeyPair row => ∀ r ∈ m.1.signatureKeyPairs,
    r.messageHash = row.messageHash → r.signature ≠ row.signature
  | _ => True

instance (m : Database × (Bool → ServiceCall MessageStatus))
    (e : Bool × Answered Query Query.Answer JsError) : Decidable (InsertsNew m e) := by
  obtain ⟨p, q, r⟩ := e
  cases q with
  | insertMessage row =>
    exact inferInstanceAs (Decidable (∀ r ∈ m.1.messages, r.messageHash ≠ row.messageHash))
  | insertFinalMessage messageHash message =>
    exact inferInstanceAs (Decidable (∀ r ∈ m.1.finalMessages, r.messageHash ≠ messageHash))
  | _ => exact .isTrue trivial

instance (m : Database × (Bool → ServiceCall MessageStatus))
    (e : Bool × Answered Query Query.Answer JsError) : Decidable (StoresNewSignature m e) := by
  obtain ⟨p, q, r⟩ := e
  cases q with
  | insertSignatureKeyPair row =>
    exact inferInstanceAs (Decidable (∀ r ∈ m.1.signatureKeyPairs,
      r.messageHash = row.messageHash → r.signature ≠ row.signature))
  | _ => exact .isTrue trivial

/-- No query can be answered any more. -/
def Final (wallets : Address → Option Storage)
    (m : Database × (Bool → ServiceCall MessageStatus)) : Prop :=
  ∀ e m', ¬ Interleaved (Query.Reliably wallets) m e m'

section
variable {c} {db : Database} {m : Database × (Bool → ServiceCall MessageStatus)}

/-- No insertion into the two tables is refused. -/
def Unrefused (log : Log) : Prop :=
  (∀ row e, rejected (.insertMessage row) e ∉ log) ∧
    ∀ messageHash message e, rejected (.insertFinalMessage messageHash message) e ∉ log

theorem unrefused_of_run
    (hrun : Run (Guarded InsertsNew (Interleaved (Query.Reliably wallets))) (db, c.adds) trace m)
    (p : Bool) : Unrefused (m.2 p).log := by
  refine hrun.invariant (I := fun m => ∀ p, Unrefused (m.2 p).log) ?_ ?_ p
  · rintro ⟨db, calls⟩ ⟨p, q, r⟩ ⟨db', calls'⟩ h ⟨hnew, ⟨hstep⟩⟩
    refine (Function.forall_update_iff calls fun _ call => Unrefused call.log).mpr
      ⟨?_, fun q _ => h q⟩
    rw [hstep.log_eq]
    have hanswer : q.Reliably wallets db r db' := hstep.answers_eq
    refine ⟨fun row e hmem => ?_, fun messageHash message e hmem => ?_⟩
    · rcases List.mem_append.mp hmem with hmem | hmem
      · exact (h p).1 row e hmem
      · cases List.mem_singleton.mp hmem
        exact hanswer.2 () _ ⟨hnew, rfl⟩
    · rcases List.mem_append.mp hmem with hmem | hmem
      · exact (h p).2 messageHash message e hmem
      · cases List.mem_singleton.mp hmem
        exact hanswer.2 () _ ⟨hnew, 0, rfl⟩
  · exact fun p => ⟨fun _ _ => List.not_mem_nil, fun _ _ _ => List.not_mem_nil⟩

/-- Calls with different signatures, of which no insertion is refused, resolve. -/
theorem resolved_of_run (hnew : c.Absent db) (hdistinct : c.signature true ≠ c.signature false)
    (hrun : Run (Guarded InsertsNew (Interleaved (Query.Reliably wallets))) (db, c.adds) trace m)
    (hfinal : Final wallets m) (p : Bool) :
    (∃ status, (m.2 p).rest = .done (.ok status)) ∧ c.Resolved (m.2 p).log := by
  obtain ⟨_, hfollows⟩ :=
    consistent_of_run (E := fun _ => True) hnew trivial (fun _ _ _ _ _ _ _ _ => trivial) hrun
  obtain ⟨hmessages, hqueue⟩ := unrefused_of_run hrun p
  obtain ⟨r, hr⟩ := ended_of_stuck (Query.exists_reliably wallets) hfinal p
  cases r with
  | ok status => exact ⟨⟨status, hr⟩, (hfollows p).of_ok hr⟩
  | error e =>
    rcases (hfollows p).of_error hr with ⟨_, row, e, hmem⟩ | ⟨hsame, _⟩ | ⟨_, message, e, hmem⟩
    · exact absurd hmem (hmessages row e)
    · cases p
      · exact absurd hsame hdistinct
      · exact absurd hsame.symm hdistinct
    · exact absurd hmem (hqueue _ message e)

theorem eq_pair_of_nodup {l : List Bool} (hnodup : l.Nodup) (hmem : ∀ p, p ∈ l) :
    ∃ p, l = [p, !p] := by
  match l with
  | [] => exact absurd (hmem true) List.not_mem_nil
  | [p] => exact absurd (List.mem_singleton.mp (hmem !p)) (by simp)
  | [p, q] =>
    have hne : q ≠ p := fun heq => by simp [heq] at hnodup
    exact ⟨p, by rw [Bool.eq_not.mpr hne]⟩
  | p :: q :: r :: l =>
    simp only [List.nodup_cons, List.mem_cons, not_or] at hnodup
    have hq := Bool.eq_not.mpr (Ne.symm hnodup.1.1)
    have hr := Bool.eq_not.mpr (Ne.symm hnodup.1.2.1)
    exact absurd (hq.trans hr.symm) hnodup.2.1.1

theorem eq_of_prefix_pair {l : List Bool} (hpre : l <+: [p, !p]) (hmem : (!p) ∈ l) :
    l = [p, !p] := by
  obtain ⟨back, hback⟩ := hpre
  match l with
  | [] => cases hmem
  | [q] =>
    cases List.mem_singleton.mp hmem
    exact absurd (List.cons.inj hback).1 (by simp)
  | [q, q'] => exact (List.append_inj (hback.trans (List.append_nil _).symm) rfl).1
  | q :: q' :: q'' :: l => simpa using congrArg List.length hback

/-- In a run in which both calls resolve, the one that was second to store its signature counts
both, and the wallet requires two at least. -/
theorem eq_database_of_run (hnew : c.Absent db) (hdistinct : c.signature true ≠ c.signature false)
    (hrun : Run (Guarded InsertsNew (Interleaved (Query.Reliably wallets))) (db, c.adds) trace m)
    (hfinal : Final wallets m) :
    ∃ p queued, m.1 = c.database db ⟨true, [p, !p], queued⟩ ∧
      1 < c.wallet.requiredSignatures.toNat ∧
      (2 < c.wallet.requiredSignatures.toNat ∧ queued = [] ∨
        c.wallet.requiredSignatures.toNat = 2 ∧ ∃ pairs sorted joined now,
          queued = [(!p, { c.unsigned with signature := joined }, now)] ∧
          pairs.Perm ([p, !p].map c.pair) ∧ sortSignatureKeyPairsByKey pairs = .ok sorted ∧
          concatenateSignatures (sorted.map (·.signature)) = .ok joined) := by
  obtain ⟨⟨⟨created, stored, queued⟩, hdb, h, _⟩, _⟩ :=
    consistent_of_run (E := fun _ => True) hnew trivial (fun _ _ _ _ _ _ _ _ => trivial) hrun
  have hresolved := fun p => (resolved_of_run hnew hdistinct hrun hfinal p).2
  obtain ⟨p, rfl⟩ := eq_pair_of_nodup h.nodup fun p => (h.stored p).mpr (hresolved p).1
  obtain rfl : created = true := h.created (by simp)
  refine ⟨p, queued, hdb, ?_⟩
  obtain ⟨_, pairs₁, hread₁, hsubmits₁⟩ := hresolved p
  obtain ⟨_, pairs₂, hread₂, hsubmits₂⟩ := hresolved !p
  -- the first to store reads its own pair at least, and the second one both
  have hfirst : 1 ≤ pairs₁.length ∧ pairs₁.length ≤ 2 := by
    obtain ⟨seen, hpre, hmem, hperm⟩ := h.since _ _ hread₁
    rw [hperm.length_eq, List.length_map]
    exact ⟨List.length_pos_of_mem hmem, hpre.length_le⟩
  have hsecond : ∀ pairs, Log.ReadSince (m.2 !p).log c.messageHash pairs →
      List.Perm pairs ([p, !p].map c.pair) := by
    intro pairs hread
    obtain ⟨seen, hpre, hmem, hperm⟩ := h.since _ _ hread
    rwa [eq_of_prefix_pair hpre hmem] at hperm
  have hboth : pairs₂.length = 2 := (hsecond _ hread₂).length_eq
  rcases hsubmits₂ with ⟨hle, pairs, sorted, joined, hread, hsorted, hjoined, htold⟩ | ⟨hlt, hhands₂⟩
  · obtain ⟨now, hmem⟩ := (h.queued _ _).mp htold
    have hqueued : queued = [(!p, { c.unsigned with signature := joined }, now)] := by
      obtain ⟨submission, rfl⟩ := List.length_eq_one_iff.mp
        (le_antisymm h.single (List.length_pos_of_mem hmem))
      rw [List.mem_singleton.mp hmem]
    -- the first did not count two signatures: else both had handed the message over
    have hfew : pairs₁.length < c.wallet.requiredSignatures.toNat := by
      rcases hsubmits₁ with ⟨_, _, _, joined₁, _, _, _, htold₁⟩ | ⟨hlt, _⟩
      · obtain ⟨now₁, hmem₁⟩ := (h.queued _ _).mp htold₁
        rw [hqueued] at hmem₁
        exact absurd (congrArg Prod.fst (List.mem_singleton.mp hmem₁)) (by simp)
      · exact hlt
    exact ⟨by omega, .inr ⟨by omega, pairs, sorted, joined, now, hqueued, hsecond _ hread, hsorted,
      hjoined⟩⟩
  · have hhands₁ : ¬ Log.HandsOver (m.2 p).log c.messageHash := by
      rcases hsubmits₁ with ⟨hle, _⟩ | ⟨_, hhands⟩
      · omega
      · exact hhands
    have hqueued : queued = [] := List.eq_nil_iff_forall_not_mem.mpr fun ⟨q, message, now⟩ hmem => by
      have htold := (h.queued q message).mpr ⟨now, hmem⟩
      by_cases hq : q = p
      · exact hhands₁ ⟨message, .ok (), hq ▸ htold⟩
      · exact hhands₂ ⟨message, .ok (), Bool.eq_not.mpr hq ▸ htold⟩
    exact ⟨by omega, .inl ⟨by omega, hqueued⟩⟩

theorem sequential_of_run (hnew : c.Absent db) (hdistinct : c.signature true ≠ c.signature false)
    (hrun : Run (Guarded InsertsNew (Interleaved (Query.Reliably wallets))) (db, c.adds) trace m)
    (hfinal : Final wallets m) :
    ∃ p db' status status',
      Runs (Query.Reliably wallets) (db, PendingMessages.add ethers (c.message p))
        (db', .done (.ok status)) ∧
      Runs (Query.Reliably wallets) (db', PendingMessages.add ethers (c.message !p))
        (m.1, .done (.ok status')) := by
  obtain ⟨p, queued, hdb, hrequired, hqueued⟩ := eq_database_of_run hnew hdistinct hrun hfinal
  have hother : c.signature p ≠ c.signature !p := by
    cases p
    · exact hdistinct.symm
    · exact hdistinct
  obtain ⟨status, hfirst⟩ : ∃ status, c.Returns db ⟨false, [], []⟩
      (PendingMessages.add ethers (c.message p)) status ⟨true, [p], []⟩ := by
    refine returns_add hnew (fun _ => rfl) (by simp) rfl (fun henough => ?_) fun _ => rfl
    exact absurd hrequired (Nat.not_lt.mpr henough)
  obtain ⟨status', hsecond⟩ : ∃ status, c.Returns db ⟨true, [p], []⟩
      (PendingMessages.add ethers (c.message !p)) status ⟨true, [p, !p], queued⟩ := by
    refine returns_add hnew (fun _ => by simp_all) (by simpa using hother) rfl (fun henough => ?_)
      fun hfew => ?_
    · rcases hqueued with ⟨hlt, _⟩ | ⟨_, pairs, sorted, joined, now, rfl, hpairs, hsorted, hjoined⟩
      · exact absurd hlt (Nat.not_lt.mpr henough)
      · exact ⟨_, returns_onReadyToExecute hnew rfl rfl henough hpairs hsorted hjoined now⟩
    · rcases hqueued with ⟨_, rfl⟩ | ⟨heq, _⟩
      · rfl
      · exact absurd hfew (Nat.not_lt.mpr heq.le)
  rw [Returns, database_idle] at hfirst
  rw [hdb]
  exact ⟨p, _, status, status', hfirst, hsecond⟩

/-- The same signature twice: at least one of the calls stores it, and the second one does so only
if it is not stored yet. -/
theorem collected_of_run_same (hnew : c.Absent db) (hsame : c.signature true = c.signature false)
    (hrun : Run (Guarded StoresNewSignature (Interleaved (Query.Reliably wallets))) (db, c.adds)
      trace m) (hfinal : Final wallets m) :
    m.1.collected c.messageHash = [c.pair true] := by
  have hall : ∀ p, c.signature p = c.signature true := fun p => by cases p <;> simp [hsame]
  have hpair : ∀ p, c.pair p = c.pair true := fun p => by
    have hkey := c.key_eq p
    rw [hall p, c.key_eq true] at hkey
    rw [pair, pair, hall p, Except.ok.inj hkey]
  obtain ⟨⟨a, hdb, h, hlength⟩, hfollows⟩ := consistent_of_run (E := fun a => a.stored.length ≤ 1)
    hnew (Nat.zero_le 1) (fun a calls p e a' hlength hfresh hmoves => by
      rcases hmoves.stored_cases with ⟨rfl, _, hnext⟩ | ⟨hkept, _⟩
      · have hnone : a.stored = [] := List.eq_nil_iff_forall_not_mem.mpr fun q hq => by
          refine hfresh (c.row q) ?_ rfl ((hall q).trans (hall p).symm)
          exact List.mem_append_right _ (List.mem_map_of_mem hq)
        rw [hnext, hnone]
        exact le_rfl
      · rwa [hkept]) hrun
  have hstored : a.stored ≠ [] := by
    intro hnil
    have hstores : ∀ p, ¬ Log.Stores (m.2 p).log c.messageHash := fun p hstores =>
      List.ne_nil_of_mem ((h.stored p).mpr hstores) hnil
    -- both calls were refused the row of the message, so that neither has inserted it
    have hrefused : ∀ p, Log.written (m.2 p).log = [] ∧
        ∃ row e, rejected (.insertMessage row) e ∈ (m.2 p).log := by
      intro p
      obtain ⟨r, hr⟩ := ended_of_stuck (Query.exists_reliably wallets) hfinal p
      cases r with
      | ok status => exact absurd ((hfollows p).of_ok hr).1 (hstores p)
      | error e =>
        rcases (hfollows p).of_error hr with hrefused | ⟨_, row, hmem⟩ | ⟨hstored, _⟩
        · exact hrefused
        · exact absurd hnil (h.tells p _ hmem)
        · exact absurd hstored (hstores p)
    obtain ⟨_, row, e, hmem⟩ := hrefused true
    obtain ⟨p, hinserted⟩ := h.inserted (h.tells true _ hmem)
    have hwritten : Query.insertMessage c.messageRow ∈ Log.written (m.2 p).log :=
      Log.mem_written.mpr ⟨rfl, (), hinserted⟩
    rw [(hrefused p).1] at hwritten
    cases hwritten
  obtain ⟨p, hp⟩ := List.length_eq_one_iff.mp (le_antisymm hlength (List.length_pos_iff.mpr hstored))
  rw [hdb, collected_database hnew, hp]
  exact congrArg ([·]) (hpair p)

end

/-- Two calls of `add` for one message. They do not go on for ever. With signatures by different
keys, if no insertion into `messages` or `finalMessages` meets a row of the message, both resolve
and the tables are those of one call after the other; each signature is collected once. With the
same signature string, if it is stored only where it is not stored yet, it is collected once. -/
theorem serialized (hnew : c.Absent db) :
    (WellFounded fun m' m : Database × (Bool → ServiceCall MessageStatus) =>
      ∃ e, Interleaved (Query.Reliably wallets) m e m') ∧
    (c.key true ≠ c.key false → ∀ trace m,
      Run (Guarded InsertsNew (Interleaved (Query.Reliably wallets))) (db, c.adds) trace m →
      Final wallets m →
        (∀ p, ∃ status, (m.2 p).rest = .done (.ok status)) ∧
        List.Perm (m.1.collected c.messageHash) [c.pair false, c.pair true] ∧
        ∃ p db' status status',
          Runs (Query.Reliably wallets) (db, PendingMessages.add ethers (c.message p))
            (db', .done (.ok status)) ∧
          Runs (Query.Reliably wallets) (db', PendingMessages.add ethers (c.message !p))
            (m.1, .done (.ok status'))) ∧
    (c.signature true = c.signature false → ∀ trace m,
      Run (Guarded StoresNewSignature (Interleaved (Query.Reliably wallets))) (db, c.adds) trace m →
      Final wallets m → m.1.collected c.messageHash = [c.pair true]) := by
  refine ⟨interleaved_wf _, fun hkeys trace m hrun hfinal => ?_, fun hsame trace m hrun hfinal =>
    collected_of_run_same hnew hsame hrun hfinal⟩
  have hdistinct : c.signature true ≠ c.signature false := fun heq => hkeys (by
    have hkey := c.key_eq true
    rw [heq, c.key_eq false] at hkey
    exact (Except.ok.inj hkey).symm)
  refine ⟨fun p => (resolved_of_run hnew hdistinct hrun hfinal p).1, ?_,
    sequential_of_run hnew hdistinct hrun hfinal⟩
  obtain ⟨p, queued, hdb, _⟩ := eq_database_of_run hnew hdistinct hrun hfinal
  rw [hdb, collected_database hnew]
  cases p
  · exact .refl _
  · exact .swap _ _ _

end Cosigned

/-- A query is answered, or refused by the primary key of a table. -/
def Explained (m : Database × (Bool → ServiceCall MessageStatus)) :
    Bool × Answered Query Query.Answer JsError → Prop
  | (_, ⟨_, .ok _⟩) => True
  | (_, ⟨.insertMessage row, .error _⟩) => ∃ r ∈ m.1.messages, r.messageHash = row.messageHash
  | _ => False

instance (m : Database × (Bool → ServiceCall MessageStatus))
    (e : Bool × Answered Query Query.Answer JsError) : Decidable (Explained m e) := by
  obtain ⟨p, q, r⟩ := e
  cases r with
  | ok a => exact .isTrue trivial
  | error e =>
    cases q with
    | insertMessage row =>
      exact inferInstanceAs (Decidable (∃ r ∈ m.1.messages, r.messageHash = row.messageHash))
    | _ => exact .isFalse id

theorem interleaved_of_explained {m m' : Database × (Bool → ServiceCall MessageStatus)}
    (hexplained : Explained m (p, e)) (h : Interleaved (Query.Answers wallets) m (p, e) m') :
    Interleaved (Query.Reliably wallets) m (p, e) m' := by
  refine h.imp fun hanswer => ?_
  obtain ⟨q, r⟩ := e
  cases r with
  | ok a => exact hanswer
  | error e =>
    cases q with
    | insertMessage row =>
      obtain ⟨r, hr, hhash⟩ := hexplained
      exact ⟨hanswer, fun _ _ heffect => heffect.1 r hr hhash⟩
    | _ => cases hexplained

namespace Sample

/-- The sample message, signed by the manager (`false`) or the actor (`true`) for each call. -/
def cosigned (signer : Bool → Bool) : Cosigned ethers chain.wallets where
  unsigned := unsigned
  messageHash := messageHash
  hash_eq := by
    rw [← hash_message]
    exact (calculateMessageHash_agrees contractArgs_unsigned).2.1
  wallet := both.storage
  wallet_eq := by
    rw [show toAddress unsigned.from_ = some wallet from toAddress_hexlify wallet]
    simp [chain]
  signature p := if signer p then hexlify byActor.bytes else hexlify byManager.bytes
  key p := if signer p then keyString actor else keyString manager
  key_eq p := by
    cases signer p <;> decide
  removePrefix_eq p := by
    have hlength : ∀ x : Signature, (Hex.encode x.bytes).length = 130 := fun x => by
      rw [Hex.length_of_decode (Hex.decode_encode x.bytes)]
      simp [Signature.bytes, packUint256]
    cases signer p
    · exact ⟨_, removePrefix_eq_ok.mpr ⟨rfl, hlength byManager⟩⟩
    · exact ⟨_, removePrefix_eq_ok.mpr ⟨rfl, hlength byActor⟩⟩
  registered p := by
    cases signer p
    · exact ⟨manager, toAddress_hexlify manager, by decide⟩
    · exact ⟨actor, toAddress_hexlify actor, by decide⟩

/-- The manager makes the message, the actor comes up to the storing of its signature, and each of
them goes on alone from there. -/
def oneAtATime : List Bool :=
  List.replicate 3 false ++ List.replicate 6 true ++ List.replicate 11 false ++
    List.replicate 15 true

/-- Both look for the message before one of them makes it. -/
def atOnce : List Bool :=
  [false, false, true, true, false, true] ++ List.replicate 11 false

def afterAdds (signer : Bool → Bool) (order : List Bool) :
    Database × (Bool → ServiceCall MessageStatus) :=
  schedule (Query.answer chain.wallets) order (Database.empty, (cosigned signer).adds)

/-- How the two calls have ended, and how many pairs there are. -/
def outcome (m : Database × (Bool → ServiceCall MessageStatus)) : Option Bool × Option Bool × Nat :=
  let ended (p : Bool) : Option Bool :=
    match (m.2 p).rest with
    | .done r => some r.isOk
    | .await _ _ => none
  (ended false, ended true, (m.1.collected messageHash).length)

theorem run_afterAdds {C : Database × (Bool → ServiceCall MessageStatus) →
      Bool × Answered Query Query.Answer JsError → Prop}
    (hC : Observes (fun m e => C m e ∧ Explained m e) (Query.answer chain.wallets) order
      (Database.empty, (cosigned signer).adds)) :
    ∃ trace, Run (Guarded C (Interleaved (Query.Reliably chain.wallets)))
      (Database.empty, (cosigned signer).adds) trace (afterAdds signer order) := by
  obtain ⟨trace, hrun⟩ := run_schedule Query.answers_answer hC
  refine ⟨trace, hrun.mono ?_⟩
  rintro m ⟨p, e⟩ m' ⟨⟨hC, hexplained⟩, hstep⟩
  exact ⟨hC, interleaved_of_explained hexplained hstep⟩

theorem done_of_outcome {m : Database × (Bool → ServiceCall MessageStatus)}
    (h : outcome m = (some x, some y, n)) :
    (∃ r, (m.2 false).rest = .done r ∧ r.isOk = x) ∧ ∃ r, (m.2 true).rest = .done r ∧ r.isOk = y := by
  simp only [outcome, Prod.mk.injEq] at h
  obtain ⟨hfalse, htrue, _⟩ := h
  constructor
  · split at hfalse
    · exact ⟨_, ‹_›, Option.some.inj hfalse⟩
    · cases hfalse
  · split at htrue
    · exact ⟨_, ‹_›, Option.some.inj htrue⟩
    · cases htrue

theorem length_collected_of_outcome {m : Database × (Bool → ServiceCall MessageStatus)}
    (h : outcome m = (x, y, n)) : (m.1.collected messageHash).length = n := by
  simp only [outcome, Prod.mk.injEq] at h
  exact h.2.2

theorem rejected_of_outcome {m : Database × (Bool → ServiceCall MessageStatus)}
    (h : outcome m = (some x, some false, n)) : ∃ e, (m.2 true).rest = .done (.error e) := by
  obtain ⟨_, r, hr, hok⟩ := done_of_outcome h
  cases r with
  | ok status => cases hok
  | error e => exact ⟨e, hr⟩

theorem final_of_outcome {m : Database × (Bool → ServiceCall MessageStatus)}
    (h : outcome m = (some x, some y, n)) : Cosigned.Final chain.wallets m := by
  obtain ⟨⟨r, hr, _⟩, r', hr', _⟩ := done_of_outcome h
  rintro _ _ @⟨_, _, _, _, _, p, hcall⟩
  have hpending := hcall.pending
  cases p
  · rw [Call.pending, hr] at hpending
    cases hpending
  · rw [Call.pending, hr'] at hpending
    cases hpending

set_option maxRecDepth 20000 in
theorem afterAdds_oneAtATime :
    Observes (fun m e => Cosigned.InsertsNew m e ∧ Explained m e)
      (Query.answer chain.wallets) oneAtATime (Database.empty, (cosigned id).adds) ∧
    outcome (afterAdds id oneAtATime) = (some true, some true, 2) := by decide

set_option maxRecDepth 20000 in
theorem afterAdds_inOrder :
    Observes (fun m e => Cosigned.StoresNewSignature m e ∧ Explained m e)
      (Query.answer chain.wallets) (List.replicate 14 false ++ List.replicate 5 true)
      (Database.empty, (cosigned fun _ => false).adds) ∧
    outcome (afterAdds (fun _ => false) (List.replicate 14 false ++ List.replicate 5 true)) =
      (some true, some false, 1) := by decide

set_option maxRecDepth 20000 in
theorem afterAdds_atOnce :
    Observes (fun m e => True ∧ Explained m e) (Query.answer chain.wallets) atOnce
      (Database.empty, (cosigned id).adds) ∧
    outcome (afterAdds id atOnce) = (some true, some false, 1) := by decide

set_option maxRecDepth 20000 in
theorem afterAdds_twice :
    Observes (fun m e => True ∧ Explained m e) (Query.answer chain.wallets) oneAtATime
      (Database.empty, (cosigned fun _ => false).adds) ∧
    outcome (afterAdds (fun _ => false) oneAtATime) = (some true, some true, 2) := by decide

theorem absent_empty {signer : Bool → Bool} : (cosigned signer).Absent Database.empty where
  messages _ h := absurd h List.not_mem_nil
  signatureKeyPairs _ h := absurd h List.not_mem_nil
  finalMessages _ h := absurd h List.not_mem_nil

end Sample

/-- The actor comes up to the storing of its signature while the manager has not stored its own, and
the manager sends its signature twice in a row. -/
theorem serialized_sample :
    (∃ m db' p status status',
      Runs (Query.Reliably Sample.chain.wallets)
        (Database.empty, PendingMessages.add Sample.ethers ((Sample.cosigned id).message p))
        (db', .done (.ok status)) ∧
      Runs (Query.Reliably Sample.chain.wallets)
        (db', PendingMessages.add Sample.ethers ((Sample.cosigned id).message !p))
        (m, .done (.ok status')) ∧
      List.Perm (m.collected Sample.messageHash)
        [(Sample.cosigned id).pair false, (Sample.cosigned id).pair true]) ∧
    ∃ db : Database, db.collected Sample.messageHash =
      [(Sample.cosigned fun _ => false).pair true] := by
  obtain ⟨hobserves, houtcome⟩ := Sample.afterAdds_oneAtATime
  obtain ⟨trace, hrun⟩ := Sample.run_afterAdds hobserves
  have hkeys : (Sample.cosigned id).key true ≠ (Sample.cosigned id).key false := by decide
  obtain ⟨_, hdifferent, _⟩ := Cosigned.serialized (c := Sample.cosigned id) Sample.absent_empty
  obtain ⟨_, hcollected, p, db', status, status', hfirst, hsecond⟩ :=
    hdifferent hkeys trace _ hrun (Sample.final_of_outcome houtcome)
  obtain ⟨hobserves', houtcome'⟩ := Sample.afterAdds_inOrder
  obtain ⟨trace', hrun'⟩ := Sample.run_afterAdds hobserves'
  obtain ⟨_, _, hsame⟩ :=
    Cosigned.serialized (c := Sample.cosigned fun _ => false) Sample.absent_empty
  exact ⟨⟨_, db', p, status, status', hfirst, hsecond, hcollected⟩, _,
    hsame rfl trace' _ hrun' (Sample.final_of_outcome houtcome')⟩

/-- Where both calls look for the message before one of them makes it, the other one is rejected and
its signature is lost. Where both look for the same signature before one of them stores it, it is
collected twice. -/
theorem signature_lost_or_doubled :
    (∃ trace m, Run (Interleaved (Query.Reliably Sample.chain.wallets))
        (Database.empty, (Sample.cosigned id).adds) trace m ∧ Cosigned.Final Sample.chain.wallets m ∧
      (∃ e, (m.2 true).rest = .done (.error e)) ∧
      (m.1.collected Sample.messageHash).length = 1) ∧
    ∃ trace m, Run (Interleaved (Query.Reliably Sample.chain.wallets))
        (Database.empty, (Sample.cosigned fun _ => false).adds) trace m ∧
      Cosigned.Final Sample.chain.wallets m ∧
      (m.1.collected Sample.messageHash).length = 2 := by
  obtain ⟨hobserves, houtcome⟩ := Sample.afterAdds_atOnce
  obtain ⟨trace, hrun⟩ := Sample.run_afterAdds hobserves
  generalize Sample.afterAdds id Sample.atOnce = m at houtcome hrun
  obtain ⟨hobserves', houtcome'⟩ := Sample.afterAdds_twice
  obtain ⟨trace', hrun'⟩ := Sample.run_afterAdds hobserves'
  generalize Sample.afterAdds (fun _ => false) Sample.oneAtATime = m' at houtcome' hrun'
  exact ⟨⟨trace, m, hrun.of_guarded, Sample.final_of_outcome houtcome,
      Sample.rejected_of_outcome houtcome, Sample.length_collected_of_outcome houtcome⟩,
    trace', m', hrun'.of_guarded, Sample.final_of_outcome houtcome',
    Sample.length_collected_of_outcome houtcome'⟩

end UniversalLogin
