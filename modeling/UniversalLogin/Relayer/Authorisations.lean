import Mathlib.Data.List.TakeWhile
import UniversalLogin.Relayer.Serialisation

/-!
# Authorisations

What the hook of a confirmed `addKey` does to the requests for authorisation. The key is decoded as
32 bytes and printed without its leading zeros, so a request for a key that itself begins with a
zero byte is not found (`onTransactionSent_removes_iff`).
-/

namespace UniversalLogin

open Async

/-! ## Letter case -/

theorem toLower_toLower (c : Char) : c.toLower.toLower = c.toLower := by
  by_cases hupper : c.val ≥ 'A'.val ∧ c.val ≤ 'Z'.val
  · have hletters : ∀ n < 26,
        (Char.ofNat (65 + n)).toLower.toLower = (Char.ofNat (65 + n)).toLower := by decide
    have hlow : 65 ≤ c.toNat := UInt32.le_iff_toNat_le.mp hupper.1
    have hhigh : c.toNat ≤ 90 := UInt32.le_iff_toNat_le.mp hupper.2
    have hc := hletters (c.toNat - 65) (by omega)
    rwa [show 65 + (c.toNat - 65) = c.toNat by omega, Char.ofNat_toNat] at hc
  · have hsame : c.toLower = c := dif_neg hupper
    rw [hsame, hsame]

theorem toLowerCase_toLowerCase (s : JsString) : toLowerCase (toLowerCase s) = toLowerCase s := by
  rw [toLowerCase, toLowerCase, List.map_map]
  exact List.map_congr_left fun c _ => toLower_toLower c

theorem toLower_lowerDigit : ∀ n < 16, (Hex.lowerDigit n).toLower = Hex.lowerDigit n := by decide

/-- Bytes are printed in lower case. -/
theorem toLowerCase_hexlify (bs : Bytes) : toLowerCase (hexlify bs) = hexlify bs := by
  have hdigits : (Hex.encode bs).map Char.toLower = Hex.encode bs := by
    induction bs with
    | nil => rfl
    | cons b bs ih =>
      have hb := b.toNat_lt
      have hhigh := toLower_lowerDigit (b.toNat / 16) (by omega)
      have hlow := toLower_lowerDigit (b.toNat % 16) (by omega)
      simp only [Hex.encode, List.flatMap_cons, List.map_append, List.map_cons, List.map_nil, hhigh,
        hlow]
      exact congrArg _ ih
  rw [toLowerCase, hexlify, List.map_cons, List.map_cons, hdigits]
  rfl

theorem hexlify_inj {as bs : Bytes} (h : hexlify as = hexlify bs) : as = bs := by
  have hbytes := arrayify_hexlify as
  rw [h, arrayify_hexlify] at hbytes
  exact (Except.ok.inj hbytes).symm

/-- A string is an address, in whatever letter case. -/
def isAddressString (s : JsString) (a : Address) : Prop := toLowerCase s = hexlify (packAddress a)

instance : Decidable (isAddressString s a) := inferInstanceAs (Decidable (_ = _))

/-! ## The requests -/

/-- A request, without the device that it comes from. -/
structure AuthorisationRequest where
  walletContractAddress : JsString
  key : JsString

namespace AuthorisationService

/-- The row that a request is stored as. -/
def row (request : AuthorisationRequest) : AuthorisationRow :=
  ⟨toLowerCase request.walletContractAddress, toLowerCase request.key⟩

/-- The insertion that `addRequest` awaits. -/
def addRequest (request : AuthorisationRequest) (db : Database) : Database :=
  { db with authorisations := db.authorisations ++ [row request] }

/-- The selection that `getPendingAuthorisations` awaits. -/
def getPendingAuthorisations (walletContractAddress : JsString) (db : Database) :
    List AuthorisationRow :=
  db.authorisations.filter (·.walletContractAddress = toLowerCase walletContractAddress)

/-- The rows are requests. -/
def Pending (db : Database) : Prop := ∀ r ∈ db.authorisations, ∃ request, r = row request

theorem Pending.addRequest {db : Database} (h : Pending db) (request : AuthorisationRequest) :
    Pending (addRequest request db) := by
  intro r hr
  rcases List.mem_append.mp hr with hr | hr
  · exact h r hr
  · exact ⟨request, List.mem_singleton.mp hr⟩

theorem Pending.removeRequest {db : Database} (h : Pending db)
    (hremove : Query.Effect wallets (.deleteAuthorisation walletContractAddress key) db () db') :
    Pending db' := by
  cases hremove
  exact fun r hr => h r (List.mem_of_mem_filter hr)

/-- A request is compared as it was made. -/
theorem row_key_iff {request : AuthorisationRequest} {a : Address} :
    isAddressString (row request).key a ↔ (row request).key = hexlify (packAddress a) := by
  rw [isAddressString, row, toLowerCase_toLowerCase]

theorem row_wallet_iff {request : AuthorisationRequest} {a : Address} :
    isAddressString (row request).walletContractAddress a ↔
      (row request).walletContractAddress = hexlify (packAddress a) := by
  rw [isAddressString, row, toLowerCase_toLowerCase]

end AuthorisationService

/-! ## The key -/

/-- Calldata of `addKey` -/
def encodeAddKey (key : Address) (purpose : Uint256) : Bytes :=
  encodeCall 0xa2d39bdb [key.setWidth 256, purpose]

theorem length_encodeAddKey : (encodeAddKey key purpose).length = 68 := by
  simp [encodeAddKey]

theorem isAddKeyCall_encodeAddKey : isAddKeyCall (encodeAddKey key purpose) = true := by
  rw [isAddKeyCall, isDataForFunctionCall, encodeAddKey, encodeCall,
    List.take_left' BigEndian.length_encode]
  exact decide_eq_true rfl

/-- An address as a word has twelve bytes in front. -/
theorem packUint256_setWidth (a : Address) :
    packUint256 (a.setWidth 256) = List.replicate 12 0 ++ packAddress a := by
  have hlt : a.toNat < 256 ^ 20 := a.isLt
  have hzeros : BigEndian.decode (List.replicate 12 0) = 0 := by decide
  have hdecode : BigEndian.decode (List.replicate 12 0 ++ packAddress a) = a.toNat := by
    rw [BigEndian.decode_append, hzeros, packAddress, BigEndian.decode_encode_of_lt hlt]
    omega
  have hlen : (List.replicate 12 (0 : UInt8) ++ packAddress a).length = 32 := by simp
  rw [packUint256, BitVec.toNat_setWidth, Nat.mod_eq_of_lt (by omega), ← hdecode, ← hlen,
    BigEndian.encode_decode]

/-- The first byte of an address. -/
def leadingByte (a : Address) : Nat := a.toNat / 2 ^ 152

/-- An address without its first zeros. -/
def stripZeros (a : Address) : Bytes := (packAddress a).dropWhile (· = 0)

theorem getKeyFromData_encodeAddKey :
    getKeyFromData (encodeAddKey key purpose) = .ok (hexlify (stripZeros key)) := by
  have hcall : encodeAddKey key purpose =
      encodeCall 0xa2d39bdb [key.setWidth 256, purpose] ++ [] := (List.append_nil _).symm
  have harity : arity 2 (encodeAddKey key purpose) = some () := by
    rw [hcall]
    exact arity_encodeCall (by simp)
  have hkey : argUint256 (encodeAddKey key purpose) 0 = key.setWidth 256 := by
    rw [hcall]
    exact argUint256_encodeCall rfl
  have hzeros : ∀ b ∈ List.replicate 12 (0 : UInt8), decide (b = 0) = true := by simp
  rw [getKeyFromData, harity, hkey, packUint256_setWidth, List.dropWhile_append_of_pos hzeros,
    stripZeros]

/-- Nothing is stripped of an address that does not begin with a zero byte. -/
theorem stripZeros_eq_iff {a : Address} : stripZeros a = packAddress a ↔ leadingByte a ≠ 0 := by
  have hlen : (packAddress a).length = 20 := length_packAddress
  have hlt : a.toNat < 256 ^ 20 := a.isLt
  have hdecode : BigEndian.decode (packAddress a) = a.toNat := BigEndian.decode_encode_of_lt hlt
  obtain ⟨b, rest, hcons⟩ :=
    List.exists_cons_of_length_pos (show 0 < (packAddress a).length by omega)
  rw [hcons, List.length_cons] at hlen
  have hrest := BigEndian.decode_lt rest
  have hfirst : leadingByte a = b.toNat := by
    have happend := BigEndian.decode_append [b] rest
    rw [List.singleton_append, ← hcons, hdecode, show rest.length = 19 by omega] at happend
    rw [show rest.length = 19 by omega] at hrest
    have hsingle : BigEndian.decode [b] = b.toNat := by simp [BigEndian.decode]
    rw [leadingByte, happend, hsingle]
    omega
  have hzero : b = 0 ↔ b.toNat = 0 := by rw [← UInt8.toNat_inj]; rfl
  rw [stripZeros, List.dropWhile_eq_self_iff, hfirst, hcons]
  simp [hzero]

/-! ## The hook -/

/-- A confirmed `addKey`: a transaction to a wallet that executes its own `addKey`. -/
structure AddsKey (sentTransaction : TransactionResponse) (wallet key : Address)
    (purpose : Uint256) : Prop where
  to_ : sentTransaction.to_ = wallet
  data : ∃ message : SignedMessage, toAddress message.to_ = some wallet ∧
    arrayify message.data = .ok (encodeAddKey key purpose) ∧ message.signature.length < 2 ^ 53 ∧
    encodeDataForExecuteSigned message = .ok sentTransaction.data

/-- The hook deletes the requests for the key as it is printed. -/
theorem onTransactionSent_eq {wallet key : Address}
    (h : AddsKey sentTransaction wallet key purpose) :
    MessageHandler.onTransactionSent sentTransaction =
      query (.deleteAuthorisation (hexlify (packAddress wallet)) (hexlify (stripZeros key))) := by
  obtain ⟨hwallet, message, hto, hdata, hshort, hencode⟩ := h
  have hlen : (encodeAddKey key purpose).length < 2 ^ 53 := by
    rw [length_encodeAddKey]
    norm_num
  obtain ⟨m, hdecode, rfl, hm⟩ := decodeDataForExecuteSigned_of_encode hencode hto hdata hlen hshort
  rw [MessageHandler.onTransactionSent, hdecode]
  change (if m.to_ = sentTransaction.to_ then _ else _) = _
  rw [if_pos hwallet.symm, hm, if_pos isAddKeyCall_encodeAddKey,
    MessageHandler.removeReqFromAuthService, getKeyFromData_encodeAddKey, hwallet]
  change Async.bind (Async.await _ _) _ = _
  rw [toLowerCase_hexlify, toLowerCase_hexlify]
  change Async.await _ _ = Async.await _ _
  congr
  funext r
  cases r <;> rfl

theorem filter_eq_filter_iff {p q : α → Bool} {l : List α} :
    l.filter p = l.filter q ↔ ∀ a ∈ l, p a = q a := by
  refine ⟨fun h a ha => ?_, List.filter_congr⟩
  have hmem : a ∈ l.filter p ↔ a ∈ l.filter q := by rw [h]
  simp only [List.mem_filter, ha, true_and] at hmem
  exact Bool.eq_iff_iff.mpr hmem

/-- The requests of a wallet for a key. -/
def isRequestFor (wallet key : Address) (r : AuthorisationRow) : Prop :=
  isAddressString r.walletContractAddress wallet ∧ isAddressString r.key key

instance {wallet key : Address} : Decidable (isRequestFor wallet key r) :=
  inferInstanceAs (Decidable (_ ∧ _))

/-- After a confirmed `addKey` exactly the requests of the wallet for the key are gone, if the key
does not begin with a zero byte. If it does, then only where there are none of these, and none for
the key without its zeros. -/
theorem onTransactionSent_removes_iff {db : Database} {wallet key : Address}
    (hpending : AuthorisationService.Pending db)
    (hadds : AddsKey sentTransaction wallet key purpose) :
    (∃ db', Runs (Query.Answers wallets)
      (db, MessageHandler.onTransactionSent sentTransaction) (db', .done (.ok ()))) ∧
    ∀ db', Runs (Query.Answers wallets)
      (db, MessageHandler.onTransactionSent sentTransaction) (db', .done (.ok ())) →
      (db'.authorisations = db.authorisations.filter (fun r => ¬ isRequestFor wallet key r) ↔
        leadingByte key ≠ 0 ∨ ∀ r ∈ db.authorisations,
          isAddressString r.walletContractAddress wallet →
            ¬ isAddressString r.key key ∧ r.key ≠ hexlify (stripZeros key)) := by
  rw [onTransactionSent_eq hadds]
  refine ⟨⟨_, runs_perform rfl⟩, fun db' hrun => ?_⟩
  cases runs_perform_iff.mp hrun
  rw [filter_eq_filter_iff, ← stripZeros_eq_iff]
  constructor
  · intro h
    refine or_iff_not_imp_left.mpr fun hstripped r hr hwallet => ?_
    obtain ⟨request, rfl⟩ := hpending r hr
    have hsame := h _ hr
    simp only [isRequestFor, AuthorisationService.row_key_iff, hwallet,
      eq_true (AuthorisationService.row_wallet_iff.mp hwallet), true_and, decide_eq_decide,
      not_iff_not] at hsame ⊢
    constructor
    · exact fun hkey => hstripped (hexlify_inj ((hsame.mpr hkey).symm.trans hkey))
    · exact fun hkey => hstripped (hexlify_inj (hkey.symm.trans (hsame.mp hkey)))
  · intro h r hr
    obtain ⟨request, rfl⟩ := hpending r hr
    simp only [isRequestFor, AuthorisationService.row_wallet_iff,
      AuthorisationService.row_key_iff, decide_eq_decide, not_iff_not]
    refine and_congr_right fun hwallet => ?_
    rcases h with hfull | hnone
    · rw [hfull]
    · obtain ⟨hkey, hstripped⟩ := hnone _ hr (AuthorisationService.row_wallet_iff.mpr hwallet)
      rw [AuthorisationService.row_key_iff] at hkey
      exact iff_of_false hstripped hkey

namespace Sample

/-- The arguments with which the sample wallet adds a key to itself. -/
def addKeyArgs (key : Address) : ExecuteArgs :=
  { message with data := encodeAddKey key 1, signatures := [] }

def sentAddKey (key : Address) : TransactionResponse where
  hash := hexlify []
  to_ := wallet
  data := encodeExecuteSigned (addKeyArgs key)

theorem addsKey (key : Address) : AddsKey (sentAddKey key) wallet key 1 := by
  obtain ⟨hfrom, hto, hvalue, _, hnonce, hprice, htoken, hlimit, htype⟩ :=
    contractArgs_eq_some.mp contractArgs_unsigned
  have hargs : UnsignedMessage.contractArgs { unsigned with data := .bytes (encodeAddKey key 1) } =
      some (wallet, { message with data := encodeAddKey key 1 }) :=
    contractArgs_eq_some.mpr ⟨hfrom, hto, hvalue, rfl, hnonce, hprice, htoken, hlimit, htype⟩
  refine ⟨rfl, { unsigned with data := .bytes (encodeAddKey key 1), signature := hexlify [] }, hto,
    rfl, show (hexlify []).length < 2 ^ 53 by decide,
    encodeDataForExecuteSigned_eq (executeArgs_eq_some hargs ?_)⟩
  rw [toBytes, arrayify_hexlify]

/-- A request of the sample wallet. -/
def request (key : Address) : AuthorisationRequest :=
  ⟨hexlify (packAddress wallet), hexlify (packAddress key)⟩

def requested (key : Address) : Database := AuthorisationService.addRequest (request key) .empty

theorem pending_requested (key : Address) : AuthorisationService.Pending (requested key) :=
  AuthorisationService.Pending.addRequest (fun _ h => absurd h List.not_mem_nil) _

end Sample

set_option maxRecDepth 20000 in
theorem onTransactionSent_removes_sample :
    ∃ db', Runs (Query.Answers fun _ => none)
      (Sample.requested (2 ^ 152), MessageHandler.onTransactionSent (Sample.sentAddKey (2 ^ 152)))
      (db', .done (.ok ())) ∧ db'.authorisations = [] := by
  obtain ⟨⟨db', hrun⟩, h⟩ := onTransactionSent_removes_iff (Sample.pending_requested (2 ^ 152))
    (Sample.addsKey (2 ^ 152))
  exact ⟨db', hrun, ((h db' hrun).mpr (.inl (by decide))).trans (by decide)⟩

set_option maxRecDepth 20000 in
/-- The request for a key that begins with a zero byte stays. -/
theorem onTransactionSent_keeps_request :
    Runs (Query.Answers fun _ => none)
      (Sample.requested 1, MessageHandler.onTransactionSent (Sample.sentAddKey 1))
      (Sample.requested 1, .done (.ok ())) ∧
    (Sample.requested 1).authorisations ≠
      (Sample.requested 1).authorisations.filter fun r => ¬ isRequestFor Sample.wallet 1 r := by
  refine ⟨?_, by decide⟩
  rw [onTransactionSent_eq (Sample.addsKey 1)]
  exact runs_perform (by change _ = _; decide)

end UniversalLogin
