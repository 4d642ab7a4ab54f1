import UniversalLogin.Relayer.Signers

/-!
# Messages that are refused

A call of `add` on its own, answered by a store in any state and by any chain. It stores a row for a
message that is new before it looks at the signature, and the signature before it looks at what the
wallet requires. So a call that is rejected leaves the store as it was, as far as a client can see,
just if it is rejected before one of its writes was accepted. Which calls these are is told from the
store, the message and the answers.
-/

namespace UniversalLogin

open Async Labelled

namespace Database

/-- `isPresent` -/
def isPresent (db : Database) (messageHash : Bytes32) : Bool :=
  (db.messages.find? (·.messageHash = messageHash)).isSome ||
    (db.collected messageHash).length ≠ 0

/-- The transaction hash of a message. -/
def transactionHash (db : Database) (messageHash : Bytes32) : Option JsString :=
  (db.messages.find? (·.messageHash = messageHash)).bind (·.transactionHash)

/-- What is seen of the messages in both is the same. -/
def SameMessages (db db' : Database) : Prop :=
  ∀ messageHash, db'.isPresent messageHash = db.isPresent messageHash ∧
    db'.collected messageHash = db.collected messageHash ∧
      db'.transactionHash messageHash = db.transactionHash messageHash

theorem SameMessages.refl (db : Database) : db.SameMessages db := fun _ => ⟨rfl, rfl, rfl⟩

/-- A message or a signature was added. -/
def Traces (db db' : Database) : Prop :=
  (∃ messageHash, db.isPresent messageHash = false ∧
    ∃ row ∈ db'.messages, row.messageHash = messageHash) ∨
  ∃ messageHash, (db.collected messageHash).length < (db'.collected messageHash).length

theorem Traces.grows (h : Traces db₀ db) (hgrows : db.Grows db') : Traces db₀ db' := by
  rcases h with ⟨messageHash, hpresent, row, hrow, hhash⟩ | ⟨messageHash, hlt⟩
  · obtain ⟨row', hrow', hhash', _⟩ := hgrows.messages row hrow
    exact .inl ⟨messageHash, hpresent, row', hrow', hhash'.trans hhash⟩
  · exact .inr ⟨messageHash, hlt.trans_le (hgrows.collected messageHash).length_le⟩

theorem Traces.not_same (h : Traces db db') : ¬ db.SameMessages db' := by
  intro hsame
  rcases h with ⟨messageHash, hpresent, row, hrow, hhash⟩ | ⟨messageHash, hlt⟩
  · have hfound : (db'.messages.find? (·.messageHash = messageHash)).isSome :=
      List.find?_isSome.mpr ⟨row, hrow, decide_eq_true hhash⟩
    have hpresent' : db'.isPresent messageHash = true := by simp [isPresent, hfound]
    rw [(hsame messageHash).1, hpresent] at hpresent'
    cases hpresent'
  · rw [(hsame messageHash).2.1] at hlt
    exact lt_irrefl _ hlt

end Database

section
variable {wallets : Address → Option Storage} {ethers : Ethers} {message : SignedMessage}
  {db₀ db db' : Database} {log : Log}

/-- What these answers to a call have left of the store with which it began. -/
structure Leaves (wallets : Address → Option Storage) (db₀ db : Database) (log : Log) : Prop where
  grows : db₀.Grows db
  untouched : log.written = [] → db = db₀ ∧ ∀ e ∈ log, e.1.Answers wallets db₀ e.2 db₀
  traces : log.written ≠ [] → db₀.Traces db

namespace Leaves

theorem initial : Leaves wallets db₀ db₀ [] :=
  ⟨.refl db₀, fun _ => ⟨rfl, fun _ h => by cases h⟩, fun h => absurd rfl h⟩

/-- The first write that is accepted leaves a trace. -/
theorem traces_of_written {q : Query} {a : q.Answer} (h : Leaves wallets db₀ db log)
    (hawaits : PendingMessages.Awaits ethers message messageHash log q) (hwrites : q.writes = true)
    (heffect : q.Effect wallets db a db') : db₀.Traces db' := by
  cases q with
  | insertMessage row =>
    obtain ⟨rfl, hwritten, hmissing, hnone⟩ := hawaits
    obtain ⟨rfl, hanswers⟩ := h.untouched hwritten
    obtain ⟨_, rfl⟩ := heffect
    refine .inl ⟨messageHash, ?_, _, List.mem_append_right _ List.mem_cons_self, rfl⟩
    have hmissing := (hanswers _ hmissing).1
    have hnone := (hanswers _ hnone).1
    simp [Database.isPresent, ← hmissing, List.nil_perm.mp hnone]
  | insertSignatureKeyPair row =>
    obtain ⟨_, rfl⟩ := heffect
    refine .inr ⟨row.messageHash, ?_⟩
    rw [Database.collected_insert, if_pos rfl, List.length_append, List.length_singleton]
    exact Nat.lt_succ_of_le (h.grows.collected _).length_le
  | insertFinalMessage hash finalMessage =>
    obtain ⟨_, _, ⟨row, _, hstored⟩, _⟩ := hawaits
    have hwritten : log.written ≠ [] :=
      List.ne_nil_of_mem (Log.mem_written.mpr ⟨rfl, _, hstored⟩)
    exact (h.traces hwritten).grows (heffect.grows rfl)
  | _ => cases hawaits.symm.trans hwrites

theorem step {q : Query} {r : Except JsError q.Answer} (h : Leaves wallets db₀ db log)
    (hawaits : PendingMessages.Awaits ethers message messageHash log q)
    (hanswer : q.Answers wallets db r db') : Leaves wallets db₀ db' (log ++ [⟨q, r⟩]) := by
  have hgrows := hanswer.grows hawaits.not_deletes
  refine ⟨h.grows.trans hgrows, fun hwritten => ?_, fun hwritten => ?_⟩
  · rw [Log.written_append] at hwritten
    obtain ⟨hbefore, hlast⟩ := List.append_eq_nil_iff.mp hwritten
    obtain ⟨rfl, hanswers⟩ := h.untouched hbefore
    obtain rfl : db' = db := by
      cases r with
      | error e => exact hanswer
      | ok a =>
        refine Query.Effect.eq_of_not_writes hanswer ?_
        simpa [Log.written] using hlast
    refine ⟨rfl, fun e he => ?_⟩
    rcases List.mem_append.mp he with he | he
    · exact hanswers e he
    · cases List.mem_singleton.mp he
      exact hanswer
  · by_cases hbefore : log.written = []
    · cases r with
      | error e =>
        rw [Log.written_append, hbefore] at hwritten
        exact absurd rfl hwritten
      | ok a =>
        have hwrites : q.writes = true := by
          rw [Log.written_append, hbefore] at hwritten
          simpa [Log.written] using hwritten
        exact h.traces_of_written hawaits hwrites hanswer
    · exact (h.traces hbefore).grows hgrows

end Leaves

/-- Whatever a call of `add` was answered until it was rejected or in between, the store is as it
was just if none of its writes was accepted. -/
theorem Leaves.same_iff (h : Leaves wallets db₀ db log) :
    db₀.SameMessages db ↔ log.written = [] := by
  constructor
  · intro hsame
    by_contra hwritten
    exact (h.traces hwritten).not_same hsame
  · intro hwritten
    obtain ⟨rfl, _⟩ := h.untouched hwritten
    exact .refl db

end

/-! ## Why nothing is written -/

/-- One of the first answers is a rejection. -/
def Log.RejectedWithin (log : Log) (n : ℕ) : Prop := ∃ e ∈ log.take n, e.2.isOk = false

/-- Why the signature of a message that is present is not stored: what is stored, who has signed it,
and what the call is answered. It stores the signature with its seventh query. -/
inductive RefusesSignature (ethers : Ethers) (message : SignedMessage) (messageHash : Bytes32)
    (db : Database) (answers : Log) : Prop
  | noRow (hrow : db.messages.find? (·.messageHash = messageHash) = none)
  | executed (hrow : db.messages.find? (·.messageHash = messageHash) = some row)
    (hexecuted : truthy row.transactionHash = true)
  | duplicated (hpair : pair ∈ db.collected messageHash)
    (hsignature : pair.signature = message.signature)
  | noSigner (hkey : getKeyFromHashAndSignature ethers messageHash message.signature = .error e)
  | noPurpose (hrow : db.messages.find? (·.messageHash = messageHash) = some row)
    (hkey : getKeyFromHashAndSignature ethers messageHash message.signature = .ok key)
    (hpurpose : told (.getKeyPurpose row.walletAddress key) invalidKey ∈ answers.take 7)
  | rejected (hrejected : answers.RejectedWithin 7)

/-- Why neither a row of the message nor its signature is stored. A call stores the row of a message
that is not present with its third query. -/
inductive Refuses (ethers : Ethers) (message : SignedMessage) (db : Database) (answers : Log) : Prop
  | noHash (hhash : calculateMessageHash ethers.crypto message.toUnsignedMessage = .error e)
  | newMessage (hhash : calculateMessageHash ethers.crypto message.toUnsignedMessage =
      .ok messageHash)
    (hpresent : db.isPresent messageHash = false) (hrejected : answers.RejectedWithin 3)
  | signature (hhash : calculateMessageHash ethers.crypto message.toUnsignedMessage =
      .ok messageHash)
    (hpresent : db.isPresent messageHash = true)
    (hrefuses : RefusesSignature ethers message messageHash db answers)

section
variable {wallets : Address → Option Storage} {ethers : Ethers} {message : SignedMessage}
  {messageHash : Bytes32} {db : Database} {log : Log}

theorem Log.RejectedWithin.mono (h : log.RejectedWithin m) (hle : m ≤ n) :
    log.RejectedWithin n := by
  obtain ⟨e, he, herror⟩ := h
  exact ⟨e, (List.take_prefix_take_left hle).subset he, herror⟩

theorem Log.RejectedWithin.of_length (h : log.length < n) :
    Log.RejectedWithin (log ++ [rejected q e]) n := by
  refine ⟨rejected q e, ?_, rfl⟩
  rw [List.take_of_length_le (by simp; omega)]
  exact List.mem_append_right _ List.mem_cons_self

/-- The answers with which a call has made its first write. -/
structure FirstWrite (ethers : Ethers) (message : SignedMessage) (db : Database) (front : Log) :
    Prop where
  written : front.written ≠ []
  not_refuses : ∀ log, front <+: log → ¬ Refuses ethers message db log

namespace FirstWrite

theorem of_new
    (hhash : calculateMessageHash ethers.crypto message.toUnsignedMessage = .ok messageHash)
    (hpresent : db.isPresent messageHash = false) (hwritten : log.written ≠ [])
    (hlength : log.length = 3) (hanswered : ∀ e ∈ log, e.2.isOk = true) :
    FirstWrite ethers message db log := by
  refine ⟨hwritten, fun log' hprefix hrefuses => ?_⟩
  have htake : log'.take 3 = log := by rw [← hlength, ← List.prefix_iff_eq_take.mp hprefix]
  cases hrefuses with
  | noHash hhash' => cases hhash.symm.trans hhash'
  | newMessage _ _ hrejected =>
    obtain ⟨e, he, herror⟩ := hrejected
    rw [htake] at he
    cases (hanswered e he).symm.trans herror
  | signature hhash' hpresent' _ =>
    cases hhash.symm.trans hhash'
    cases hpresent.symm.trans hpresent'

theorem of_present
    (hhash : calculateMessageHash ethers.crypto message.toUnsignedMessage = .ok messageHash)
    (hpresent : db.isPresent messageHash = true) (hwritten : log.written ≠ [])
    (hlength : log.length = 7) (hanswered : ∀ e ∈ log, e.2.isOk = true)
    (hrow : db.messages.find? (·.messageHash = messageHash) = some row)
    (hexecuted : truthy row.transactionHash = false)
    (hnew : ∀ pair ∈ db.collected messageHash, pair.signature ≠ message.signature)
    (hkey : getKeyFromHashAndSignature ethers messageHash message.signature = .ok key)
    (hpurpose : told (.getKeyPurpose row.walletAddress key) invalidKey ∉ log) :
    FirstWrite ethers message db log := by
  refine ⟨hwritten, fun log' hprefix hrefuses => ?_⟩
  have htake : log'.take 7 = log := by rw [← hlength, ← List.prefix_iff_eq_take.mp hprefix]
  cases hrefuses with
  | noHash hhash' => cases hhash.symm.trans hhash'
  | newMessage hhash' hpresent' _ =>
    cases hhash.symm.trans hhash'
    cases hpresent.symm.trans hpresent'
  | signature hhash' _ hrefuses =>
    cases hhash.symm.trans hhash'
    cases hrefuses with
    | noRow hrow' => cases hrow.symm.trans hrow'
    | executed hrow' hexecuted' =>
      cases hrow.symm.trans hrow'
      cases hexecuted.symm.trans hexecuted'
    | duplicated hpair hsignature => exact hnew _ hpair hsignature
    | noSigner hkey' => cases hkey.symm.trans hkey'
    | noPurpose hrow' hkey' hpurpose' =>
      cases hrow.symm.trans hrow'
      cases hkey.symm.trans hkey'
      exact hpurpose (htake ▸ hpurpose')
    | rejected hrejected =>
      obtain ⟨e, he, herror⟩ := hrejected
      rw [htake] at he
      cases (hanswered e he).symm.trans herror

end FirstWrite

/-! ## Points of failure -/

/-- As long as nothing is written, the store answers as it was. -/
def AnswersFirst (wallets : Address → Option Storage) (db : Database) (log : Log) (q : Query)
    (r : Except JsError q.Answer) : Prop :=
  log.written = [] → ∃ db', q.Answers wallets db r db'

/-- A call of `add` that is rejected with nothing written just if it is refused. -/
abbrev Fails (wallets : Address → Option Storage) (ethers : Ethers) (message : SignedMessage)
    (db : Database) (post : Log → α → Prop) : Log → Promise α → Prop :=
  Follows (AnswersFirst wallets db) (fun _ _ => True)
    (fun log _ => Log.written log = [] ↔ Refuses ethers message db log) post

/-- After the first write a call may go on as it likes. -/
theorem FirstWrite.fails {front : Log} {x : Promise α} (h : FirstWrite ethers message db front) :
    Fails wallets ethers message db (fun _ _ => True) front x := by
  refine (follows_grown List.prefix_rfl).mono (fun _ _ _ h => h) (fun _ _ h => h)
    (fun log e hgrown => ?_) fun _ _ _ => trivial
  refine iff_of_false (fun hwritten => h.written ?_) (h.not_refuses log hgrown)
  obtain ⟨back, rfl⟩ := hgrown
  rw [Log.written_append] at hwritten
  exact (List.append_eq_nil_iff.mp hwritten).1

section
variable (hhash : calculateMessageHash ethers.crypto message.toUnsignedMessage = .ok messageHash)
include hhash

/-- The first write of a call is the seventh of its queries where the message is present, and else
the third. One that is rejected until then leaves nothing. -/
theorem fails_query {q : Query} {post : Log → q.Answer → Prop} (hwritten : log.written = [])
    (hfirst : log.length < 3 ∨ db.isPresent messageHash = true ∧ log.length < 7)
    (hpost : ∀ a db', q.Effect wallets db a db' → post (log ++ [told q a]) a) :
    Fails wallets ethers message db post log (query q) := by
  refine (follows_query q).mpr ⟨trivial, fun a hanswer => ?_, fun e _ => iff_of_true ?_ ?_⟩
  · obtain ⟨db', heffect⟩ := hanswer hwritten
    exact hpost a db' heffect
  · rw [Log.written_append, hwritten]
    rfl
  · cases hpresent : db.isPresent messageHash with
    | true => exact .signature hhash hpresent (.rejected (.of_length (by omega)))
    | false =>
      rw [hpresent] at hfirst
      exact .newMessage hhash hpresent (.of_length (by simpa using hfirst))

theorem fails_isPresent {post : Log → Bool → Prop}
    (hpost : ∀ row pairs,
      post
        [told (.selectMessage messageHash) row, told (.selectSignatureKeyPairs messageHash) pairs]
        (db.isPresent messageHash)) :
    Fails wallets ethers message db post [] (PendingMessages.isPresent messageHash) := by
  refine follows_bind.mpr (fails_query hhash rfl (.inl (by simp)) fun row _ hrow => ?_)
  refine follows_bind.mpr (fails_query hhash rfl (.inl (by simp)) fun pairs _ hpairs => ?_)
  obtain ⟨rfl, _⟩ := hrow
  obtain ⟨hperm, _⟩ := hpairs
  have hpresent := hpost (db.messages.find? (·.messageHash = messageHash)) pairs
  rw [Database.isPresent, ← hperm.length_eq] at hpresent
  exact hpresent

/-- The row of a new message is stored, or the call leaves nothing. -/
theorem fails_add_store {row pairs} {post : Log → Unit → Prop}
    (hpresent : db.isPresent messageHash = false)
    (hpost : ∀ front, FirstWrite ethers message db front → post front ()) :
    Fails wallets ethers message db post
      [told (.selectMessage messageHash) row, told (.selectSignatureKeyPairs messageHash) pairs]
      (PendingMessagesSQLStore.add messageHash (createPendingMessage message.from_)) := by
  refine fails_query hhash rfl (.inl (by simp)) fun _ _ _ => hpost _ ?_
  refine .of_new hhash hpresent (by simp [Log.written, Query.writes]) rfl ?_
  simp [Except.isOk, Except.toBool]

variable (hpresent : db.isPresent messageHash = true)
include hpresent

/-- A message may be present without a row. -/
theorem fails_get {post : Log → PendingMessage → Prop} (hwritten : log.written = [])
    (hlength : log.length < 6)
    (hpost : ∀ row pairs, db.messages.find? (·.messageHash = messageHash) = some row →
      post (log.get messageHash row pairs) ⟨pairs, row.transactionHash, row.walletAddress⟩) :
    Fails wallets ethers message db post log (PendingMessagesSQLStore.get messageHash) := by
  have hread {a : Option MessageRow} :
      (log ++ [told (.selectMessage messageHash) a]).written = [] := by
    rw [Log.written_append, hwritten]
    rfl
  refine follows_bind.mpr (fails_query hhash hwritten (.inr ⟨hpresent, by omega⟩) ?_)
  rintro row _ ⟨hrow, _⟩
  cases row with
  | none => exact iff_of_true hread (.signature hhash hpresent (.noRow hrow.symm))
  | some row =>
    refine follows_bind.mpr (fails_query hhash hread (.inr ⟨hpresent, ?_⟩) fun pairs _ _ => ?_)
    · rw [List.length_append, List.length_singleton]
      omega
    · exact hpost row pairs hrow.symm

/-- A signature that is collected already. -/
theorem fails_containSignature {post : Log → Bool → Prop} (hwritten : log.written = [])
    (hlength : log.length < 7)
    (hpost : ∀ row contained,
      (contained = true ↔ ∃ pair ∈ db.collected messageHash, pair.signature = signature) →
        post (log ++ [told (.selectSignature messageHash signature) row]) contained) :
    Fails wallets ethers message db post log
      (PendingMessagesSQLStore.containSignature messageHash signature) := by
  refine follows_bind.mpr (fails_query hhash hwritten (.inr ⟨hpresent, hlength⟩) ?_)
  rintro row _ ⟨rfl, _⟩
  refine hpost _ _ ?_
  simp [Database.collected, and_assoc]

/-- The signature of a message that is present is stored, or the call leaves nothing. -/
theorem fails_addSignatureToPendingMessage {row : Option MessageRow} {pairs}
    {post : Log → Unit → Prop}
    (hpost : ∀ front, FirstWrite ethers message db front → post front ()) :
    Fails wallets ethers message db post
      [told (.selectMessage messageHash) row, told (.selectSignatureKeyPairs messageHash) pairs]
      (PendingMessages.addSignatureToPendingMessage ethers messageHash message) := by
  have hrefused : ∀ {log : Log}, log.written = [] →
      RefusesSignature ethers message messageHash db log →
        (log.written = [] ↔ Refuses ethers message db log) :=
    fun hwritten hrefuses => iff_of_true hwritten (.signature hhash hpresent hrefuses)
  refine follows_bind.mpr (fails_get hhash hpresent rfl (by simp) fun row pairs hrow => ?_)
  refine follows_bind.mpr (follows_ensure (fun hexecuted => ?_) fun hexecuted => ?_)
  · exact hrefused rfl (.executed hrow (Bool.eq_true_of_not_eq_false hexecuted))
  refine follows_bind.mpr (fails_containSignature hhash hpresent rfl (by simp) ?_)
  intro found contained hcontained
  refine follows_bind.mpr (follows_ensure (fun hduplicated => ?_) fun hnew => ?_)
  · obtain ⟨pair, hpair, hsignature⟩ := hcontained.mp (Bool.eq_true_of_not_eq_false hduplicated)
    exact hrefused rfl (.duplicated hpair hsignature)
  -- `ensureCorrectKeyPurpose` calculates the hash once more
  refine follows_bind.mpr (follows_bind.mpr (follows_lift (fun e he => ?_) fun hash hhash' => ?_))
  · cases hhash.symm.trans he
  cases hhash.symm.trans hhash'
  refine follows_bind.mpr
    (follows_lift (fun e he => hrefused rfl (.noSigner he)) fun key hkey => ?_)
  refine follows_bind.mpr (fails_query hhash rfl (.inr ⟨hpresent, by simp⟩) fun purpose _ _ => ?_)
  refine follows_ensure (fun hpurpose => ?_) fun hpurpose => ?_
  · cases not_ne_iff.mp hpurpose
    exact hrefused rfl (.noPurpose hrow hkey (by simp))
  -- `addSignature` recovers the key once more
  refine follows_bind.mpr (follows_lift (fun e he => ?_) fun key' hkey' => ?_)
  · cases hkey.symm.trans he
  cases hkey.symm.trans hkey'
  refine fails_query hhash rfl (.inr ⟨hpresent, by simp⟩) fun _ _ _ => hpost _ ?_
  refine .of_present hhash hpresent (by simp [Log.written, Query.writes]) rfl
    (by simp [Except.isOk, Except.toBool]) hrow hexecuted (fun pair hpair hsignature => ?_)
    hkey (by simpa using Ne.symm hpurpose)
  cases hnew.symm.trans (hcontained.mpr ⟨pair, hpair, hsignature⟩)

end

theorem fails_add :
    Fails wallets ethers message db (fun _ _ => True) [] (PendingMessages.add ethers message) := by
  refine follows_bind.mpr (follows_lift (fun e he => ?_) fun messageHash hhash => ?_)
  · exact iff_of_true rfl (.noHash he)
  refine follows_bind.mpr (fails_isPresent hhash fun row pairs => ?_)
  refine follows_bind.mpr ?_
  cases hpresent : db.isPresent messageHash with
  | false => exact fails_add_store hhash hpresent fun _ hfront => hfront.fails
  | true =>
    refine follows_bind.mpr (fails_addSignatureToPendingMessage hhash hpresent ?_)
    exact fun _ hfront => hfront.fails

/-- A call of `add` that is rejected leaves the store as it was, as far as a client can see, just if
neither a row of the message nor its signature was stored: the message has no hash, or is present
and refused for what is stored, for who has signed it or for what the wallet answers of the key, or
one of the queries until the first write was rejected. -/
theorem same_messages_iff
    (hrun : Run (Interleaved (Query.Answers wallets))
      (db₀, begin fun _ : Unit => PendingMessages.add ethers message) trace (db, calls))
    (hrejected : (calls ()).rest = .done (.error e)) :
    db₀.SameMessages db ↔ Refuses ethers message db₀ (calls ()).log := by
  have hboth : Leaves wallets db₀ db (calls ()).log ∧
      (calls ()).Follows (AnswersFirst wallets db₀) (fun _ _ => True)
        (fun log _ => Log.written log = [] ↔ Refuses ethers message db₀ log) fun _ _ => True := by
    have hadd (p : Unit) : (begin (fun _ : Unit => PendingMessages.add ethers message) p).Follows
        (fun _ _ _ => True)
        (PendingMessages.Awaits ethers message (messageHashOf ethers message))
        (fun _ _ => True) fun _ _ => True :=
      PendingMessages.follows_add messageHashOf_eq
    refine (follows_of_run (I := fun db (calls : Unit → ServiceCall MessageStatus) =>
        Leaves wallets db₀ db (calls ()).log ∧
          (calls ()).Follows (AnswersFirst wallets db₀) (fun _ _ => True)
            (fun log _ => Log.written log = [] ↔ Refuses ethers message db₀ log) fun _ _ => True)
      (fun _ _ _ h => h) (fun _ _ _ _ _ _ _ => trivial) ?_ hrun ⟨.initial, fails_add⟩ hadd).1
    rintro db calls ⟨⟩ ⟨q, r⟩ db' _ ⟨hleaves, hfails⟩ hfollows ⟨hstep⟩
    rw [Function.update_self]
    constructor
    · rw [hstep.log_eq]
      exact hleaves.step ((hfollows ()).awaited_of_pending hstep.pending) hstep.answers_eq
    · refine hfails.step hstep fun hwritten => ?_
      obtain ⟨rfl, _⟩ := hleaves.untouched hwritten
      exact ⟨_, hstep.answers_eq⟩
  rw [hboth.1.same_iff]
  exact hboth.2.of_error hrejected

end

/-! ## A signature that is sent again, and one of a stranger -/

namespace Sample

/-- What a call was rejected with. -/
def rejection (call : ServiceCall α) : Option JsError :=
  match call.rest with
  | .done (.error e) => some e
  | _ => none

theorem done_of_rejection {call : ServiceCall α} (h : rejection call = some e) :
    call.rest = .done (.error e) := by
  rw [rejection] at h
  split at h
  · next heq =>
    cases h
    exact heq
  · cases h

/-- The store with one signature of the message. -/
def signedOnce : Database :=
  { Database.empty with
    messages := [⟨messageHash, none, unsigned.from_⟩]
    signatureKeyPairs := [⟨⟨keyString manager, hexlify byManager.bytes⟩, messageHash⟩] }

/-- Someone who has no key of the wallet: whom the message is to give one. -/
def stranger : Address := newcomer

/-- The signature of the stranger for the message. -/
def byStranger : Signature where
  r := 0xd47644539acec3da5e3ecf5fe8863c628a9c97e8b71e9ea9167a6f4f83c03c32
  s := 0x2288f0e40ee7ae13f0dfbe0068d34711968a5b4ffb8edba5e0a10a28206f5ba9

/-- The signature of the stranger is recovered too. -/
def recoveringStranger : Ethers where
  crypto := crypto
  verifyMessage hash signature := do
    let bytes ← arrayify (.string signature)
    if hash = messageHash ∧ bytes = byStranger.bytes then return keyString stranger
    else recovering.verifyMessage hash signature

/-- A call on its own. -/
def alone (ethers : Ethers) (signature : Signature) (db₀ : Database) :
    Database × (Unit → ServiceCall MessageStatus) :=
  schedule (Query.answer chain.wallets) (List.replicate 10 ())
    (db₀, begin fun _ => PendingMessages.add ethers (signed signature.bytes))

theorem run_alone (ethers : Ethers) (signature : Signature) (db₀ : Database) : ∃ trace,
    Run (Interleaved (Query.Answers chain.wallets))
      (db₀, begin fun _ : Unit => PendingMessages.add ethers (signed signature.bytes)) trace
      (alone ethers signature db₀) := by
  have hobserves : Observes (fun _ _ => True) (Query.answer chain.wallets) (List.replicate 10 ())
      (db₀, begin fun _ : Unit => PendingMessages.add ethers (signed signature.bytes)) :=
    observes_of_forall fun _ _ => trivial
  obtain ⟨trace, hrun⟩ := run_schedule Query.answers_answer hobserves
  exact ⟨trace, hrun.of_guarded⟩

set_option maxRecDepth 20000 in
theorem alone_again : rejection ((alone recovering byManager signedOnce).2 ()) =
    some (.relayer .duplicatedSignature) := by decide

set_option maxRecDepth 20000 in
theorem alone_stranger : rejection ((alone recoveringStranger byStranger .empty).2 ()) =
      some (.relayer (.invalidSignature "Invalid key purpose")) ∧
    (alone recoveringStranger byStranger .empty).1.isPresent messageHash = true := by decide

/-- The signature is stored, so the call is refused whatever it is answered. -/
theorem refuses_again {log : Log} :
    Refuses recovering (signed byManager.bytes) signedOnce log := by
  have hhash : calculateMessageHash crypto (signed byManager.bytes).toUnsignedMessage =
      .ok messageHash := by
    rw [calculateMessageHash_of_contractArgs (contractArgs_signed _), hash_message]
  have hpair : ⟨keyString manager, hexlify byManager.bytes⟩ ∈ signedOnce.collected messageHash :=
    List.mem_cons_self
  exact .signature hhash (by decide) (.duplicated hpair rfl)

end Sample

theorem same_messages_iff_sample : ∃ db calls,
    (∃ trace, Run (Interleaved (Query.Answers Sample.chain.wallets))
      (Sample.signedOnce, begin fun _ : Unit => PendingMessages.add Sample.recovering
        (Sample.signed Sample.byManager.bytes)) trace (db, calls)) ∧
    (calls ()).rest = .done (.error (.relayer .duplicatedSignature)) ∧
    Sample.signedOnce.SameMessages db := by
  have hrejected := Sample.alone_again
  obtain ⟨trace, hrun⟩ := Sample.run_alone Sample.recovering Sample.byManager Sample.signedOnce
  generalize Sample.alone Sample.recovering Sample.byManager Sample.signedOnce = m
    at hrun hrejected
  obtain ⟨db, calls⟩ := m
  have hdone := Sample.done_of_rejection hrejected
  exact ⟨db, calls, ⟨trace, hrun⟩, hdone,
    (same_messages_iff hrun hdone).mpr Sample.refuses_again⟩

/-- The signer is no key of the wallet, and the message is present. -/
theorem rejected_present : ∃ trace db calls,
    Run (Interleaved (Query.Answers Sample.chain.wallets))
      (Database.empty, begin fun _ : Unit => PendingMessages.add Sample.recoveringStranger
        (Sample.signed Sample.byStranger.bytes)) trace (db, calls) ∧
    (calls ()).rest = .done (.error (.relayer (.invalidSignature "Invalid key purpose"))) ∧
    ¬ Database.empty.SameMessages db := by
  obtain ⟨hrejected, hpresent⟩ := Sample.alone_stranger
  obtain ⟨trace, hrun⟩ := Sample.run_alone Sample.recoveringStranger Sample.byStranger .empty
  generalize Sample.alone Sample.recoveringStranger Sample.byStranger .empty = m
    at hrun hrejected hpresent
  obtain ⟨db, calls⟩ := m
  refine ⟨trace, db, calls, hrun, Sample.done_of_rejection hrejected, fun hsame => ?_⟩
  cases hpresent.symm.trans (hsame Sample.messageHash).1

end UniversalLogin
