import UniversalLogin.Contracts.KeyCount
import UniversalLogin.Relayer.PendingMessages

/-!
# What the relayer enqueues, the wallet accepts

Calls of `PendingMessages.add` in turn, each with any message, over tables that were empty. A
signature is stored with the key it recovers to, after that key was found to have a purpose at the
wallet of the message (`Consistent`). So when a message is handed over to the queue, the signers of
its concatenated signature are the keys of the collected pairs in ascending order, which is what the
loop of `areSignaturesValid` asks for.
-/

namespace UniversalLogin

open Async Transition Reentrancy

/-- Wallets on the chain, in states that runs lead to. -/
structure Chain (crypto : Crypto) where
  wallets : Address → Option Storage
  reachable : ∀ a s, wallets a = some s →
    ∃ env m, env.this = a ∧ env.crypto = crypto ∧ Reachable env m ∧ m.world.storage = s

theorem Chain.sound {chain : Chain crypto} (h : chain.wallets a = some s) : s.Sound := by
  obtain ⟨env, m, _, _, hm, rfl⟩ := chain.reachable a s h
  exact (Bounded.reachable hm).sound

/-- A signature string that stands for 65 bytes with a recovery byte of 27 or 28. -/
structure WellFormedSignature (signature : JsString) (bytes : Bytes) : Prop where
  length : signature.length = 132
  hex : arrayify (.string signature) = .ok bytes
  v : bytes.getD 64 0 = 27 ∨ bytes.getD 64 0 = 28

theorem WellFormedSignature.of_hexlify (hlength : bytes.length = 65)
    (hv : bytes.getD 64 0 = 27 ∨ bytes.getD 64 0 = 28) :
    WellFormedSignature (hexlify bytes) bytes := by
  have hencode := Hex.length_of_decode (Hex.decode_encode bytes)
  refine ⟨?_, arrayify_hexlify bytes, hv⟩
  rw [hexlify, List.length_cons, List.length_cons, hencode, hlength]

/-- `verifyMessage` returns what `ecrecover` does for the hash with the prefix of signed messages,
and returns only if that does not fail. -/
def Ethers.Agrees (ethers : Ethers) : Prop :=
  ∀ messageHash signature bytes key, WellFormedSignature signature bytes →
    ethers.verifyMessage messageHash signature = .ok key →
      ∃ a, a ≠ 0 ∧ toAddress key = some a ∧ ERC1077.chunkSigner ethers.crypto
        (ethers.crypto.toEthSignedMessageHash messageHash) bytes = a

/-- `keccak256` does not collide on what the messages are packed to. -/
def NoCollisions (crypto : Crypto) (messages : List SignedMessage) : Prop :=
  ∀ msg ∈ messages, ∀ msg' ∈ messages, ∀ bs bs', msg.pack crypto = .ok bs →
    msg'.pack crypto = .ok bs' → crypto.keccak256 bs = crypto.keccak256 bs' → bs = bs'

/-- The signatures collected for a message are well-formed and by different keys. -/
structure Accepted (db : Database) (messageHash : Bytes32) : Prop where
  wellFormed : ∀ pair ∈ db.collected messageHash, ∃ bytes, WellFormedSignature pair.signature bytes
  different : (db.collected messageHash).Pairwise fun p q => p.address ≠ q.address

/-- The message passes the length check and `canExecute` of `executeSigned`. -/
def Accepts (crypto : Crypto) (wallet : Address) (s : Storage) (message : SignedMessage) : Prop :=
  ∃ args, message.executeArgs = some (wallet, args) ∧ args.signatures.length ≠ 0 ∧
    (s.requiredSignatures * 65).toNat ≤ args.signatures.length ∧
      ERC1077.canExecute crypto wallet args s.toKeyHolder = true

/-- The bytes of a signature string, where it is one. -/
def signatureBytes (signature : JsString) : Bytes := (toBytes (.string signature)).getD []

/-- The pair is a registered key of the wallet and a signature that `ecrecover` recovers to it. -/
structure Recovered (crypto : Crypto) (messageHash : Bytes32) (s : Storage)
    (pair : CollectedSignatureKeyPair) : Prop where
  key : toAddress pair.key = some pair.address
  ne_zero : pair.address ≠ 0
  registered : s.keyExist pair.address = true
  hex : arrayify (.string pair.signature) = .ok (signatureBytes pair.signature)
  signer : ERC1077.chunkSigner crypto (crypto.toEthSignedMessageHash messageHash)
    (signatureBytes pair.signature) = pair.address

/-- Every row of `messages` stands for one of the messages, and every signature is stored with the
key it recovers to, which has a purpose at the wallet of its message. -/
structure Consistent (ethers : Ethers) (chain : Chain ethers.crypto) (messages : List SignedMessage)
    (db : Database) : Prop where
  origin : ∀ row ∈ db.messages, ∃ msg ∈ messages,
    calculateMessageHash ethers.crypto msg.toUnsignedMessage = .ok row.messageHash ∧
      row.walletAddress = msg.from_
  recovered : ∀ pair ∈ db.signatureKeyPairs,
    ethers.verifyMessage pair.messageHash pair.signature = .ok pair.key
  registered : ∀ pair ∈ db.signatureKeyPairs, ∃ row ∈ db.messages,
    row.messageHash = pair.messageHash ∧ ∃ purpose, purpose ≠ invalidKey ∧
      Query.HasPurpose chain.wallets row.walletAddress pair.key purpose

section
variable {ethers : Ethers} {chain : Chain ethers.crypto} {messages : List SignedMessage}
  {db : Database} {message : SignedMessage} {messageHash : Bytes32} {wallet : Address} {s : Storage}

namespace Consistent

theorem empty : Consistent ethers chain messages Database.empty where
  origin _ h := nomatch h
  recovered _ h := nomatch h
  registered _ h := nomatch h

theorem insertMessage (hinv : Consistent ethers chain messages db) (hmsg : message ∈ messages)
    (hhash : calculateMessageHash ethers.crypto message.toUnsignedMessage = .ok messageHash) :
    Consistent ethers chain messages { db with
      messages := db.messages ++ [⟨messageHash, none, message.from_⟩] } where
  origin row hrow := by
    rcases List.mem_append.mp hrow with hrow | hrow
    · exact hinv.origin row hrow
    · cases List.mem_singleton.mp hrow
      exact ⟨message, hmsg, hhash, rfl⟩
  recovered := hinv.recovered
  registered pair hpair := by
    obtain ⟨row, hrow, h⟩ := hinv.registered pair hpair
    exact ⟨row, List.mem_append_left _ hrow, h⟩

theorem insertSignatureKeyPair (hinv : Consistent ethers chain messages db)
    (hkey : ethers.verifyMessage messageHash signature = .ok key) {row : MessageRow}
    (hrow : row ∈ db.messages) (hhash : row.messageHash = messageHash)
    (hpurpose : Query.HasPurpose chain.wallets row.walletAddress key purpose)
    (hvalid : purpose ≠ invalidKey) :
    Consistent ethers chain messages { db with
      signatureKeyPairs := db.signatureKeyPairs ++ [{ key, signature, messageHash }] } where
  origin := hinv.origin
  recovered pair hpair := by
    rcases List.mem_append.mp hpair with hpair | hpair
    · exact hinv.recovered pair hpair
    · cases List.mem_singleton.mp hpair
      exact hkey
  registered pair hpair := by
    rcases List.mem_append.mp hpair with hpair | hpair
    · exact hinv.registered pair hpair
    · cases List.mem_singleton.mp hpair
      exact ⟨row, hrow, hhash, purpose, hvalid, hpurpose⟩

/-- The hash of a message determines the address of its wallet. -/
theorem wallet_eq (hinv : Consistent ethers chain messages db)
    (hcollisions : NoCollisions ethers.crypto messages) (hmsg : message ∈ messages)
    (hhash : calculateMessageHash ethers.crypto message.toUnsignedMessage = .ok messageHash)
    (hfrom : toAddress message.from_ = some wallet) {row : MessageRow} (hrow : row ∈ db.messages)
    (hrowHash : row.messageHash = messageHash) (ha : toAddress row.walletAddress = some a) :
    a = wallet := by
  obtain ⟨msg, hmsg', hhash', hwallet⟩ := hinv.origin row hrow
  rw [hwallet] at ha
  rw [calculateMessageHash_eq, except_map_eq_ok] at hhash hhash'
  obtain ⟨bs, hpack, hbs⟩ := hhash
  obtain ⟨bs', hpack', hbs'⟩ := hhash'
  have heq : bs' = bs := hcollisions msg hmsg' message hmsg bs' bs hpack' hpack
    (hbs'.trans (hrowHash.trans hbs.symm))
  obtain ⟨rest, hrest⟩ := pack_eq_append hfrom hpack
  obtain ⟨rest', hrest'⟩ := pack_eq_append ha hpack'
  rw [hrest, hrest'] at heq
  exact (packAddress_append_inj heq).1

/-- The pairs collected for a message of a wallet are recovered. -/
theorem recovered_of_mem (hinv : Consistent ethers chain messages db) (hagrees : ethers.Agrees)
    (haccepted : Accepted db messageHash) (hwallet : chain.wallets wallet = some s)
    (hrows : ∀ row ∈ db.messages, row.messageHash = messageHash →
      ∀ a, toAddress row.walletAddress = some a → a = wallet)
    (hpair : pair ∈ db.collected messageHash) : Recovered ethers.crypto messageHash s pair := by
  obtain ⟨bytes, hbytes⟩ := haccepted.wellFormed pair hpair
  obtain ⟨stored, hstored, hhash, rfl⟩ := Database.mem_collected.mp hpair
  obtain ⟨a, ha0, hkey, hsigner⟩ := hagrees _ _ _ _ hbytes (hinv.recovered stored hstored)
  rw [hhash] at hsigner
  have haddress : stored.address = a := by simp [CollectedSignatureKeyPair.address, hkey]
  have hbytes' : signatureBytes stored.signature = bytes := by
    simp [signatureBytes, toBytes, hbytes.hex]
  obtain ⟨row, hrow, hrowHash, purpose, hvalid, w, k, hw, hk, hpurpose⟩ :=
    hinv.registered stored hstored
  cases hkey.symm.trans hk
  cases hrows row hrow (hrowHash.trans hhash) w hw
  rw [hpurpose s hwallet] at hvalid
  have hregistered : (s.keys a).key ≠ 0 := fun h0 =>
    hvalid ((Chain.sound hwallet).unregistered a ha0 h0)
  exact { key := haddress ▸ hkey
          ne_zero := haddress ▸ ha0
          registered := by simpa [haddress, KeyHolder.keyExist] using hregistered
          hex := hbytes' ▸ hbytes.hex
          signer := by rw [hbytes', haddress, hsigner] }

end Consistent

/-! ## The signature that is handed over -/

/-- The signers of a concatenated signature are the keys of its pairs. -/
theorem signers_concatenateSignatures {pairs : List CollectedSignatureKeyPair}
    (hrecovered : ∀ p ∈ pairs, Recovered crypto messageHash s p)
    (hsignature : concatenateSignatures (pairs.map (·.signature)) = .ok signature) :
    ∃ bytes, toBytes (.string signature) = some bytes ∧
      ERC1077.signers crypto bytes (crypto.toEthSignedMessageHash messageHash) =
        pairs.map (·.address) := by
  obtain ⟨hbytes, hlens⟩ := toBytes_concatenateSignatures hsignature
    (List.forall_mem_map.mpr fun p hp => (hrecovered p hp).hex)
  refine ⟨_, hbytes, ?_⟩
  rw [ERC1077.signers_flatten (List.forall_mem_map.mpr hlens), List.map_map, List.map_map]
  exact List.map_congr_left fun p hp => (hrecovered p hp).signer

/-- The loop accepts pairwise different keys in ascending order. -/
theorem areSignaturesValid_of_sorted {pairs : List CollectedSignatureKeyPair}
    (hrecovered : ∀ p ∈ pairs, Recovered crypto messageHash s p)
    (hsorted : pairs.Pairwise fun p q => p.address.toNat ≤ q.address.toNat)
    (hdifferent : pairs.Pairwise fun p q => p.address ≠ q.address)
    (hsigners : ERC1077.signers crypto bytes dataHash = pairs.map (·.address)) :
    ERC1077.areSignaturesValid crypto s.toKeyHolder bytes dataHash = true := by
  have hpos : ∀ p ∈ pairs, 0 < p.address := fun p hp =>
    BitVec.lt_def.mpr (Nat.pos_of_ne_zero fun h0 =>
      (hrecovered p hp).ne_zero (BitVec.eq_of_toNat_eq h0))
  have hlt : pairs.Pairwise fun p q => p.address < q.address := by
    refine (hsorted.and hdifferent).imp fun h => ?_
    exact BitVec.lt_def.mpr (lt_of_le_of_ne h.1 fun heq => h.2 (BitVec.eq_of_toNat_eq heq))
  refine ERC1077.areSignaturesValid_iff.mpr ?_
  rw [hsigners, List.pairwise_cons, List.forall_mem_map, List.forall_mem_map, List.pairwise_map]
  exact ⟨⟨hpos, hlt⟩, fun p hp => (hrecovered p hp).registered⟩

/-- As many signatures as are required pass the length check, whether its product wraps or not. -/
theorem requiredSignatures_le_length {bytes : Bytes} (hrequired : s.requiredSignatures.toNat ≤ n)
    (hn : n ≤ bytes.length / 65) : (s.requiredSignatures * 65).toNat ≤ bytes.length := by
  have h65 : (65 : Uint256).toNat = 65 := rfl
  have hmul : (s.requiredSignatures * 65).toNat ≤ s.requiredSignatures.toNat * 65 := by
    rw [BitVec.toNat_mul, h65]
    exact Nat.mod_le _ _
  omega

/-- The collected signatures in the order of their keys are accepted. -/
theorem accepts_of_collected (hinv : Consistent ethers chain messages db) (hagrees : ethers.Agrees)
    (haccepted : Accepted db messageHash) (hwallet : chain.wallets wallet = some s)
    (hrows : ∀ row ∈ db.messages, row.messageHash = messageHash →
      ∀ a, toAddress row.walletAddress = some a → a = wallet)
    (hargs : message.contractArgs = some (wallet, m))
    (hhash : calculateMessageHash ethers.crypto message.toUnsignedMessage = .ok messageHash)
    (hne : db.collected messageHash ≠ []) (henough : Enough chain.wallets messageHash db)
    (hpairs : pairs.Perm (db.collected messageHash))
    (hsort : sortSignatureKeyPairsByKey pairs = .ok sorted)
    (hsignature : concatenateSignatures (sorted.map (·.signature)) = .ok signature) :
    Accepts ethers.crypto wallet s { message with signature } := by
  have hrecovered := fun p (hp : p ∈ db.collected messageHash) =>
    hinv.recovered_of_mem hagrees haccepted hwallet hrows hp
  obtain ⟨hperm, hsorted⟩ := sortSignatureKeyPairsByKey_eq_ok
    (fun p hp => Option.isSome_iff_exists.mpr ⟨_, (hrecovered p (hpairs.mem_iff.mp hp)).key⟩) hsort
  have hperm : sorted.Perm (db.collected messageHash) := hperm.trans hpairs
  have hrecovered := fun p hp => hrecovered p (hperm.mem_iff.mp hp)
  have hdifferent := (hperm.pairwise_iff fun h => h.symm).mpr haccepted.different
  obtain ⟨bytes, hbytes, hsigners⟩ := signers_concatenateSignatures hrecovered hsignature
  have hlength : bytes.length / 65 = (db.collected messageHash).length := by
    rw [← ERC1077.length_signers, hsigners, List.length_map, hperm.length_eq]
  have hpos := List.length_pos_iff.mpr hne
  have hsigned : ERC1077.signedHash ethers.crypto wallet m =
      ethers.crypto.toEthSignedMessageHash messageHash := by
    rw [ERC1077.signedHash]
    congr 1
    exact Except.ok.inj ((calculateMessageHash_of_contractArgs hargs).symm.trans hhash)
  refine ⟨_, executeArgs_eq_some hargs hbytes, by dsimp only; omega, ?_, ?_⟩
  · obtain ⟨row, hrow, hrowHash, required, ⟨w, hw, hrequired⟩, hle⟩ := henough
    cases hrows row hrow hrowHash w hw
    rw [hrequired s hwallet] at hle
    exact requiredSignatures_le_length hle hlength.ge
  · rw [ERC1077.canExecute, hsigned]
    exact areSignaturesValid_of_sorted hrecovered hsorted hdifferent hsigners

/-! ## Calls in turn -/

/-- What is said of a query when it is awaited: a message that is handed over to the queue is one
that the wallet accepts. -/
def Handed (ethers : Ethers) (chain : Chain ethers.crypto) : Query → Database → Prop
  | .insertFinalMessage messageHash message, db => Accepted db messageHash →
    ∀ wallet m s, message.contractArgs = some (wallet, m) → chain.wallets wallet = some s →
      Accepts ethers.crypto wallet s message
  | _, _ => True

theorem handed_of_not_enqueues (q : Query) (db : Database) (h : ¬ q.Enqueues) :
    Handed ethers chain q db := by
  cases q with
  | insertFinalMessage _ _ => exact absurd trivial h
  | _ => trivial

/-- `wp` of a call that keeps the tables consistent whether it fails or not. -/
abbrev Keeps (ethers : Ethers) (chain : Chain ethers.crypto) (messages : List SignedMessage)
    (post : α → Database → Prop) : Promise α → Database → Prop :=
  wp (Query.Answers chain.wallets) (Handed ethers chain)
    (fun _ => Consistent ethers chain messages) post

theorem keeps_add_store (hinv : Consistent ethers chain messages db) (hmsg : message ∈ messages)
    (hhash : calculateMessageHash ethers.crypto message.toUnsignedMessage = .ok messageHash)
    (hpost : ∀ db, Consistent ethers chain messages db → post () db) :
    Keeps ethers chain messages post (PendingMessagesSQLStore.add messageHash
      (createPendingMessage message.from_)) db := by
  refine wp_query.mpr ⟨trivial, ?_, fun _ => hinv⟩
  rintro _ _ ⟨_, rfl⟩
  exact hpost _ (hinv.insertMessage hmsg hhash)

theorem keeps_addSignatureToPendingMessage (hinv : Consistent ethers chain messages db)
    (hhash : calculateMessageHash ethers.crypto message.toUnsignedMessage = .ok messageHash)
    (hpost : ∀ db, Consistent ethers chain messages db →
      db.collected messageHash ≠ [] → post () db) :
    Keeps ethers chain messages post
      (PendingMessages.addSignatureToPendingMessage ethers messageHash message) db := by
  have hfailed : JsError → Consistent ethers chain messages db := fun _ => hinv
  refine wp_bind.mpr (wp_get handed_of_not_enqueues hfailed fun row hrow hrowHash _ _ => ?_)
  refine wp_bind.mpr (wp_ensure hfailed fun _ => ?_)
  refine wp_bind.mpr (wp_containSignature handed_of_not_enqueues hfailed fun _ => ?_)
  refine wp_bind.mpr (wp_ensure hfailed fun _ => ?_)
  refine wp_bind.mpr (wp_ensureCorrectKeyPurpose handed_of_not_enqueues hfailed ?_)
  intro hash key purpose hhash' hkey hpurpose hvalid
  cases hhash.symm.trans hhash'
  -- the store recovers the key once more
  refine wp_bind.mpr (wp_lift hfailed fun key' hkey' => ?_)
  cases hkey.symm.trans hkey'
  refine wp_query.mpr ⟨trivial, ?_, hfailed⟩
  rintro _ _ ⟨_, rfl⟩
  refine hpost _ (hinv.insertSignatureKeyPair hkey hrow hrowHash hpurpose hvalid) ?_
  simp [Database.collected]

theorem keeps_onReadyToExecute (hagrees : ethers.Agrees)
    (hcollisions : NoCollisions ethers.crypto messages)
    (hinv : Consistent ethers chain messages db) (hmsg : message ∈ messages)
    (hhash : calculateMessageHash ethers.crypto message.toUnsignedMessage = .ok messageHash)
    (hne : db.collected messageHash ≠ [])
    (hpost : ∀ hash db, Consistent ethers chain messages db → post hash db) :
    Keeps ethers chain messages post
      (PendingMessages.onReadyToExecute ethers messageHash message) db := by
  have hfailed : JsError → Consistent ethers chain messages db := fun _ => hinv
  refine wp_bind.mpr (wp_getMessageWithSignatures handed_of_not_enqueues hfailed ?_)
  intro pairs sorted signature hpairs hsort hsignature
  refine wp_bind.mpr (wp_ensureCorrectExecution handed_of_not_enqueues hfailed fun henough => ?_)
  refine wp_bind.mpr (wp_lift hfailed fun hash hhash' => ?_)
  cases hhash.symm.trans hhash'
  refine wp_bind.mpr (wp_query.mpr ⟨?_, ?_, hfailed⟩)
  · intro haccepted wallet m s hargs hwallet
    exact accepts_of_collected hinv hagrees haccepted hwallet
      (fun row hrow hrowHash a ha => hinv.wallet_eq hcollisions hmsg hhash
        (contractArgs_eq_some.mp hargs).1 hrow hrowHash ha)
      hargs hhash hne henough hpairs hsort hsignature
  · rintro _ _ ⟨_, _, rfl⟩
    exact hpost _ _ ⟨hinv.origin, hinv.recovered, hinv.registered⟩

theorem keeps_add (hagrees : ethers.Agrees) (hcollisions : NoCollisions ethers.crypto messages)
    (hinv : Consistent ethers chain messages db) (hmsg : message ∈ messages) :
    Keeps ethers chain messages (fun _ => Consistent ethers chain messages)
      (PendingMessages.add ethers message) db := by
  refine wp_bind.mpr (wp_lift (fun _ => hinv) fun messageHash hhash => ?_)
  refine wp_bind.mpr (wp_isPresent handed_of_not_enqueues (fun _ => hinv) fun present => ?_)
  -- whether the row was there or not, the rest of the call is the same
  have hrest : ∀ db, Consistent ethers chain messages db →
      Keeps ethers chain messages (fun _ => Consistent ethers chain messages) (do
        PendingMessages.addSignatureToPendingMessage ethers messageHash message
        let status ← PendingMessages.getStatus messageHash
        let isEnough ← PendingMessages.isEnoughSignatures messageHash
        if isEnough then do
          let queued ← PendingMessages.onReadyToExecute ethers messageHash message
          return { status with messageHash := some queued }
        else return status) db := by
    intro db hinv
    refine wp_bind.mpr (keeps_addSignatureToPendingMessage hinv hhash fun db hinv hne => ?_)
    have hfailed : JsError → Consistent ethers chain messages db := fun _ => hinv
    refine wp_bind.mpr (wp_getStatus handed_of_not_enqueues hfailed fun _ _ _ _ _ _ _ => ?_)
    refine wp_bind.mpr (wp_isEnoughSignatures handed_of_not_enqueues hfailed fun enough _ => ?_)
    cases enough with
    | false => exact hinv
    | true =>
      exact wp_bind.mpr (keeps_onReadyToExecute hagrees hcollisions hinv hmsg hhash hne
        fun _ _ hinv => hinv)
  refine wp_bind.mpr ?_
  cases present with
  | true => exact hrest db hinv
  | false => exact keeps_add_store hinv hmsg hhash hrest

/-- Whenever calls of `add` in turn hand a message over to the queue, with collected signatures that
are well-formed and by different keys, the wallet accepts it: the concatenated signature passes the
length check and `canExecute` of `executeSigned`. -/
theorem enqueued_accepted (hagrees : ethers.Agrees)
    (hcollisions : NoCollisions ethers.crypto messages)
    (hrun : Runs (Query.Answers chain.wallets)
      (Database.empty, inTurn (PendingMessages.add ethers) messages) (db, x))
    (hpending : x.pending = some (.insertFinalMessage messageHash message))
    (haccepted : Accepted db messageHash) (hargs : message.contractArgs = some (wallet, m))
    (hwallet : chain.wallets wallet = some s) : Accepts ethers.crypto wallet s message := by
  have hkeeps : Keeps ethers chain messages (fun _ => Consistent ethers chain messages) x db :=
    wp.runs hrun (wp_inTurn (fun _ hmsg _ hinv => keeps_add hagrees hcollisions hinv hmsg) .empty)
  exact hkeeps.awaited_of_pending hpending haccepted wallet m s hargs hwallet

end

/-! ## Two signers

A wallet that asks for two signatures. The manager sends its signature first, and the action key,
whose address is the lower one, second.
-/

namespace Sample

def keyString (a : Address) : JsString := hexlify (packAddress a)

def ethers : Ethers where
  crypto := crypto
  verifyMessage hash signature :=
    if hash = messageHash ∧ signature = hexlify byManager.bytes then .ok (keyString manager)
    else if hash = messageHash ∧ signature = hexlify byActor.bytes then .ok (keyString actor)
    else .error "invalid signature"

theorem agrees : ethers.Agrees := by
  intro hash signature bytes key hbytes hkey
  simp only [ethers] at hkey
  split at hkey
  · next h =>
    obtain ⟨rfl, rfl⟩ := h
    cases hkey
    cases (arrayify_hexlify byManager.bytes).symm.trans hbytes.hex
    exact ⟨manager, by decide, toAddress_hexlify manager, by decide⟩
  split at hkey
  · next h =>
    obtain ⟨rfl, rfl⟩ := h
    cases hkey
    cases (arrayify_hexlify byActor.bytes).symm.trans hbytes.hex
    exact ⟨actor, by decide, toAddress_hexlify actor, by decide⟩
  · cases hkey

def chain : Chain crypto where
  wallets a := if a = wallet then some both.storage else none
  reachable a s h := by
    split at h
    · next ha =>
      cases h
      have hrun : run env (idle deployed)
          (transaction registerActor gas ++ transaction requireBoth gas) = some (idle both) :=
        run_append.mpr ⟨_, run_keyed, run_both⟩
      exact ⟨env, idle both, ha.symm, rfl, ⟨_, _, _, deployed_env, hrun⟩, rfl⟩
    · cases h

def signed (signatures : Bytes) : SignedMessage := { unsigned with signature := hexlify signatures }

theorem contractArgs_signed (signatures : Bytes) :
    (signed signatures).contractArgs = some (wallet, message) := contractArgs_unsigned

theorem noCollisions : NoCollisions crypto [signed byManager.bytes, signed byActor.bytes] := by
  intro msg hmsg msg' hmsg' bs bs' hpack hpack' _
  have hsame : ∀ m ∈ [signed byManager.bytes, signed byActor.bytes],
      m.toUnsignedMessage = unsigned := by simp [signed]
  rw [hsame msg hmsg] at hpack
  rw [hsame msg' hmsg'] at hpack'
  exact Except.ok.inj (hpack.symm.trans hpack')

/-- The tables and the calls when the message is handed over. -/
def handedOver : Database × Promise (List (Except JsError MessageStatus)) :=
  drive (Query.answer chain.wallets) 34
    (Database.empty,
      inTurn (PendingMessages.add ethers) [signed byManager.bytes, signed byActor.bytes])

theorem runs_handedOver : Runs (Query.Answers chain.wallets)
    (Database.empty,
      inTurn (PendingMessages.add ethers) [signed byManager.bytes, signed byActor.bytes])
    handedOver :=
  runs_drive Query.answers_answer 34 _

set_option maxRecDepth 20000 in
theorem pending_handedOver : handedOver.2.pending =
    some (.insertFinalMessage messageHash (signed (byActor.bytes ++ byManager.bytes))) := by
  decide

set_option maxRecDepth 20000 in
theorem collected_handedOver : handedOver.1.collected messageHash =
    [⟨keyString manager, hexlify byManager.bytes⟩, ⟨keyString actor, hexlify byActor.bytes⟩] := by
  decide

theorem accepted_handedOver : Accepted handedOver.1 messageHash := by
  constructor
  · rw [collected_handedOver]
    rintro pair hpair
    rcases List.mem_pair.mp hpair with rfl | rfl
    · exact ⟨_, .of_hexlify (by decide) (by decide)⟩
    · exact ⟨_, .of_hexlify (by decide) (by decide)⟩
  · rw [collected_handedOver]
    refine List.pairwise_pair.mpr ?_
    simp only [CollectedSignatureKeyPair.address, keyString, toAddress_hexlify]
    decide

end Sample

theorem enqueued_accepted_sample : Accepts Sample.crypto Sample.wallet Sample.both.storage
    (Sample.signed (Sample.byActor.bytes ++ Sample.byManager.bytes)) := by
  have hwallet : Sample.chain.wallets Sample.wallet = some Sample.both.storage := by
    simp [Sample.chain]
  have hrun := Sample.runs_handedOver
  have hpending := Sample.pending_handedOver
  have haccepted := Sample.accepted_handedOver
  generalize Sample.handedOver = state at hrun hpending haccepted
  obtain ⟨db, x⟩ := state
  exact enqueued_accepted Sample.agrees Sample.noCollisions hrun hpending haccepted
    (Sample.contractArgs_signed _) hwallet

end UniversalLogin
