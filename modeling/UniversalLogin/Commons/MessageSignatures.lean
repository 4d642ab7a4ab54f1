import UniversalLogin.Commons.Messages

/-!
# Signatures of messages

A signature is a string of 65 bytes in hexadecimal. `concatenateSignatures` takes the prefixes off
and joins the rest, so that the bytes are those of the signatures in a row
(`toBytes_concatenateSignatures`). Also the other things the relayer does to strings of a message:
it compares addresses as numbers, and stores the numbers of a message as strings.
-/

namespace UniversalLogin

/-! ## Concatenation -/

def removePrefix (value : JsString) : Except String JsString := do
  require (value.length = 132)
    ("Invalid signature length: " ++ String.ofList value ++ " should be 132")
  require (value.take 2 = ['0', 'x'])
    ("Invalid Signature: " ++ String.ofList value ++ " needs prefix 0x")
  return value.drop 2

def concatenateSignatures (signatures : List JsString) : Except String JsString := do
  let values ← signatures.mapM removePrefix
  return '0' :: 'x' :: values.flatten

theorem removePrefix_eq_ok : removePrefix value = .ok digits ↔
    value = '0' :: 'x' :: digits ∧ digits.length = 130 := by
  simp only [removePrefix, except_bind_eq_ok, require_eq_ok, except_pure_eq_ok, exists_const]
  constructor
  · rintro ⟨hlen, hstart, rfl⟩
    have hvalue : value.take 2 ++ value.drop 2 = value := List.take_append_drop ..
    rw [hstart] at hvalue
    exact ⟨hvalue.symm, by simp [hlen]⟩
  · rintro ⟨rfl, hlen⟩
    exact ⟨by simp [hlen], rfl, rfl⟩

theorem arrayify_eq_ok {s : JsString} {bs : Bytes} : arrayify (.string s) = .ok bs ↔
    ∃ cs, s = '0' :: 'x' :: cs ∧
      Hex.decode (if cs.length % 2 = 1 then '0' :: cs else cs) = some bs := by
  constructor
  · intro h
    rw [arrayify.eq_def] at h
    split at h
    · next heq => cases heq
    · next cs heq =>
      cases heq
      refine ⟨cs, rfl, ?_⟩
      split at h <;> simp_all
    · cases h
  · rintro ⟨cs, rfl, hdecode⟩
    simp [arrayify, hdecode]

/-- The bytes of a signature with its prefix taken off. -/
theorem decode_of_removePrefix (h : removePrefix value = .ok digits)
    (hbytes : arrayify (.string value) = .ok bs) :
    Hex.decode digits = some bs ∧ bs.length = 65 := by
  obtain ⟨rfl, hlen⟩ := removePrefix_eq_ok.mp h
  obtain ⟨cs, heq, hdecode⟩ := arrayify_eq_ok.mp hbytes
  cases heq
  rw [if_neg (by omega)] at hdecode
  have := Hex.length_of_decode hdecode
  exact ⟨hdecode, by omega⟩

theorem decode_mapM_removePrefix {signatures : List JsString} {f : JsString → Bytes}
    (hok : signatures.mapM removePrefix = .ok values)
    (hbytes : ∀ s ∈ signatures, arrayify (.string s) = .ok (f s)) :
    Hex.decode values.flatten = some (signatures.map f).flatten ∧
      ∀ s ∈ signatures, (f s).length = 65 := by
  induction signatures generalizing values with
  | nil =>
    cases hok
    exact ⟨rfl, by simp⟩
  | cons s signatures ih =>
    simp only [List.mapM_cons, except_bind_eq_ok, except_pure_eq_ok] at hok
    obtain ⟨digits, hdigits, rest, hrest, rfl⟩ := hok
    obtain ⟨hdecode, hlen⟩ := decode_of_removePrefix hdigits (hbytes s List.mem_cons_self)
    obtain ⟨hdecodes, hlens⟩ := ih hrest fun s hs => hbytes s (List.mem_cons_of_mem _ hs)
    exact ⟨Hex.decode_append hdecode hdecodes, List.forall_mem_cons.mpr ⟨hlen, hlens⟩⟩

/-- The bytes of a concatenation are those of the signatures, 65 of each. -/
theorem toBytes_concatenateSignatures {signatures : List JsString} {f : JsString → Bytes}
    (hok : concatenateSignatures signatures = .ok s)
    (hbytes : ∀ s ∈ signatures, arrayify (.string s) = .ok (f s)) :
    toBytes (.string s) = some (signatures.map f).flatten ∧
      ∀ s ∈ signatures, (f s).length = 65 := by
  simp only [concatenateSignatures, except_bind_eq_ok, except_pure_eq_ok] at hok
  obtain ⟨values, hvalues, rfl⟩ := hok
  obtain ⟨hdecode, hlens⟩ := decode_mapM_removePrefix hvalues hbytes
  have hlen := Hex.length_of_decode hdecode
  refine ⟨?_, hlens⟩
  rw [toBytes, arrayify_eq_ok.mpr ⟨values.flatten, rfl, ?_⟩]
  rwa [if_neg (by omega)]

/-! ## Addresses as numbers -/

/-- An address string is the number of its address. -/
theorem bigNumberify_address (h : toAddress s = some a) :
    bigNumberify (.string s) = .ok (Int.ofNat a.toNat) := by
  rw [toAddress] at h
  cases hbytes : arrayify (.string s) with
  | error _ =>
    rw [hbytes] at h
    cases h
  | ok bs =>
    simp only [hbytes, Option.ite_none_right_eq_some, Option.some.injEq] at h
    obtain ⟨hlen, rfl⟩ := h
    obtain ⟨cs, rfl, hdecode⟩ := arrayify_eq_ok.mp hbytes
    have hlt : BigEndian.decode bs < 2 ^ 160 := by
      have := BigEndian.decode_lt bs
      rwa [hlen] at this
    -- a zero in front does not change the number
    have hzero : Hex.toNat ('0' :: cs) = Hex.toNat cs := rfl
    have hnat : Hex.toNat cs = some (BigEndian.decode bs) := by
      rw [← Hex.toNat_of_decode hdecode]
      split
      · exact hzero.symm
      · rfl
    rw [BitVec.toNat_ofNat, Nat.mod_eq_of_lt hlt, bigNumberify]
    simp only [parseNumber, hnat, Option.map_some]

/-! ## The strings that are stored -/

/-- What JavaScript takes for true. -/
def BigNumberish.truthy : BigNumberish → Bool
  | .bigNumber _ => true
  | .number n => n ≠ 0
  | .string s => s ≠ []

def BigNumberish.toJsString : BigNumberish → JsString
  | .bigNumber n | .number n => (toString n).toList
  | .string s => s

/-- `v && v.toString()` -/
def BigNumberish.stringify (v : BigNumberish) : BigNumberish :=
  if v.truthy then .string v.toJsString else v

def stringifySignedMessageFields (signedMessage : SignedMessage) : SignedMessage where
  __ := signedMessage
  value := signedMessage.value.stringify
  gasLimit := signedMessage.gasLimit.stringify
  gasPrice := signedMessage.gasPrice.stringify
  nonce := .string signedMessage.nonce.toJsString

def bignumberifySignedMessageFields (signedMessage : SignedMessage) :
    Except String SignedMessage := do
  let value ← bigNumberify signedMessage.value
  let gasLimit ← bigNumberify signedMessage.gasLimit
  let gasPrice ← bigNumberify signedMessage.gasPrice
  return { signedMessage with
    value := .bigNumber value
    gasLimit := .bigNumber gasLimit
    gasPrice := .bigNumber gasPrice }

theorem decimal_digitChar : ∀ d < 10, '0' ≤ Nat.digitChar d ∧ Nat.digitChar d ≤ '9' ∧
    (Nat.digitChar d).toNat - 48 = d := by decide

/-- The decimal digits of a number are read as it. -/
theorem decimal_toDigits (n : Nat) : decimal (Nat.toDigits 10 n) = some n := by
  induction n using Nat.strongRecOn with
  | ind n ih =>
    rw [Nat.toDigits_eq_if (by omega)]
    split
    · next hlt =>
      obtain ⟨hle, hge, heq⟩ := decimal_digitChar n hlt
      simp [decimal, hle, hge, heq]
    · next hge =>
      obtain ⟨hlow, hhigh, heq⟩ := decimal_digitChar (n % 10) (by omega)
      have hfirst := ih (n / 10) (by omega)
      rw [decimal] at hfirst
      rw [decimal, List.foldlM_append, hfirst]
      simp only [Option.bind_eq_bind, Option.bind_some, List.foldlM_cons, List.foldlM_nil, hlow,
        hhigh, and_self, if_true, heq]
      rw [Option.pure_def, Nat.div_add_mod]

theorem parseNumber_toDigits (n : Nat) : parseNumber (Nat.toDigits 10 n) = some (Int.ofNat n) := by
  have hdigit : ∀ c ∈ Nat.toDigits 10 n, c.isDigit := fun c hc =>
    Nat.isDigit_of_mem_toDigits (by omega) (by omega) hc
  rw [parseNumber.eq_def]
  split
  · next heq =>
    rw [heq] at hdigit
    exact absurd (hdigit 'x' (by simp)) (by decide)
  · next heq =>
    rw [heq] at hdigit
    exact absurd (hdigit '-' (by simp)) (by decide)
  · next heq =>
    rw [heq] at hdigit
    exact absurd (hdigit '-' (by simp)) (by decide)
  · rw [decimal_toDigits]
    rfl

theorem parseNumber_repr (n : Int) : parseNumber n.repr.toList = some n := by
  cases n with
  | ofNat n =>
    change parseNumber n.repr.toList = _
    rw [Nat.toList_repr]
    exact parseNumber_toDigits n
  | negSucc n =>
    have htoList : (Int.negSucc n).repr.toList = '-' :: Nat.toDigits 10 (n + 1) := by
      change ("-" ++ (n + 1).repr).toList = _
      rw [String.toList_append, Nat.toList_repr]
      rfl
    have hdigit : 'x' ∉ Nat.toDigits 10 (n + 1) := fun hmem =>
      absurd (Nat.isDigit_of_mem_toDigits (by omega) (by omega) hmem) (by decide)
    rw [htoList, parseNumber.eq_def]
    split
    · next heq => cases heq
    · next heq =>
      rw [(List.cons.inj heq).2] at hdigit
      exact absurd (by simp) hdigit
    · next heq =>
      cases heq
      rw [decimal_toDigits]
      rfl
    · next hne => exact (hne _ rfl).elim

/-- A number is read from what is stored of it. -/
theorem bigNumberify_toJsString (h : bigNumberify v = .ok n) :
    bigNumberify (.string v.toJsString) = .ok n := by
  cases v with
  | bigNumber m =>
    cases h
    simp [bigNumberify, BigNumberish.toJsString, parseNumber_repr]
  | number m =>
    simp only [bigNumberify] at h
    split at h
    · cases h
      simp [bigNumberify, BigNumberish.toJsString, parseNumber_repr]
    · cases h
  | string s => exact h

theorem bigNumberify_stringify (h : bigNumberify v = .ok n) : bigNumberify v.stringify = .ok n := by
  rw [BigNumberish.stringify]
  split
  · exact bigNumberify_toJsString h
  · exact h

/-- The two are the same message, but for the forms of their numbers. -/
structure SignedMessage.Same (m m' : SignedMessage) : Prop where
  gasToken : m.gasToken = m'.gasToken
  operationType : m.operationType = m'.operationType
  to_ : m.to_ = m'.to_
  from_ : m.from_ = m'.from_
  data : m.data = m'.data
  signature : m.signature = m'.signature
  nonce : bigNumberify m.nonce = bigNumberify m'.nonce
  gasLimit : bigNumberify m.gasLimit = bigNumberify m'.gasLimit
  gasPrice : bigNumberify m.gasPrice = bigNumberify m'.gasPrice
  value : bigNumberify m.value = bigNumberify m'.value

theorem SignedMessage.Same.calculateMessageHash_eq {m m' : SignedMessage} (h : m.Same m')
    (crypto : Crypto) : calculateMessageHash crypto m.toUnsignedMessage =
      calculateMessageHash crypto m'.toUnsignedMessage := by
  simp only [calculateMessageHash, solidityKeccak256, solidityPack, UnsignedMessage.values,
    List.mapM_cons, SolidityValue.pack, h.gasToken, h.operationType, h.to_, h.from_, h.data, h.nonce, h.gasLimit,
    h.gasPrice, h.value]

theorem ok_of_mapM_ok {f : α → Except String β} {as : List α} (h : as.mapM f = .ok bs)
    (hmem : a ∈ as) : ∃ b, f a = .ok b := by
  induction as generalizing bs with
  | nil => cases hmem
  | cons a' as ih =>
    simp only [List.mapM_cons, except_bind_eq_ok] at h
    obtain ⟨b, hb, bs', hbs', _⟩ := h
    rcases List.mem_cons.mp hmem with rfl | hmem
    · exact ⟨b, hb⟩
    · exact ih hbs' hmem

/-- The numbers of a message that has a hash are numbers. -/
theorem number_of_calculateMessageHash {m : UnsignedMessage} {v : BigNumberish}
    (h : calculateMessageHash crypto m = .ok messageHash)
    (hv : ∀ dataHash, .uint256 v ∈ m.values dataHash) : ∃ n, bigNumberify v = .ok n := by
  simp only [calculateMessageHash, solidityKeccak256, solidityPack, except_bind_eq_ok] at h
  obtain ⟨dataHash, _, _, ⟨_, hpacked, _⟩, _⟩ := h
  obtain ⟨bs, hbs⟩ := ok_of_mapM_ok hpacked (hv dataHash)
  simp only [SolidityValue.pack, except_bind_eq_ok] at hbs
  obtain ⟨n, hn, _⟩ := hbs
  exact ⟨n, hn⟩

/-- The fields of a message that are numbers can be read as numbers. -/
structure UnsignedMessage.HasNumbers (m : UnsignedMessage) : Prop where
  value : ∃ n, bigNumberify m.value = .ok n
  gasLimit : ∃ n, bigNumberify m.gasLimit = .ok n
  gasPrice : ∃ n, bigNumberify m.gasPrice = .ok n
  nonce : ∃ n, bigNumberify m.nonce = .ok n

theorem hasNumbers_of_calculateMessageHash {m : UnsignedMessage}
    (h : calculateMessageHash crypto m = .ok messageHash) : m.HasNumbers where
  value := number_of_calculateMessageHash h (by simp [UnsignedMessage.values])
  gasLimit := number_of_calculateMessageHash h (by simp [UnsignedMessage.values])
  gasPrice := number_of_calculateMessageHash h (by simp [UnsignedMessage.values])
  nonce := number_of_calculateMessageHash h (by simp [UnsignedMessage.values])

/-- A message is read from what is stored of it. -/
theorem bignumberify_stringify_of_hasNumbers {m : SignedMessage} (h : m.HasNumbers) :
    ∃ m', bignumberifySignedMessageFields (stringifySignedMessageFields m) = .ok m' ∧
      m'.Same m := by
  obtain ⟨⟨value, hvalue⟩, ⟨gasLimit, hgasLimit⟩, ⟨gasPrice, hgasPrice⟩, ⟨nonce, hnonce⟩⟩ := h
  refine ⟨{ stringifySignedMessageFields m with
    value := .bigNumber value, gasLimit := .bigNumber gasLimit, gasPrice := .bigNumber gasPrice },
    ?_, ?_⟩
  · simp only [bignumberifySignedMessageFields, stringifySignedMessageFields,
      bigNumberify_stringify hvalue, bigNumberify_stringify hgasLimit,
      bigNumberify_stringify hgasPrice]
    rfl
  · constructor
    case nonce => exact (bigNumberify_toJsString hnonce).trans hnonce.symm
    case gasLimit => exact hgasLimit.symm
    case gasPrice => exact hgasPrice.symm
    case value => exact hvalue.symm
    all_goals rfl

/-- A message that has a hash is read from what is stored of it. -/
theorem bignumberify_stringify {m : SignedMessage}
    (h : calculateMessageHash crypto m.toUnsignedMessage = .ok messageHash) :
    ∃ m', bignumberifySignedMessageFields (stringifySignedMessageFields m) = .ok m' ∧ m'.Same m :=
  bignumberify_stringify_of_hasNumbers (hasNumbers_of_calculateMessageHash h)

/-- `toLowerCase` of an ASCII string. -/
def toLowerCase (s : JsString) : JsString := s.map Char.toLower

/-! ## The arguments of `executeSigned` -/

/-- The wallet and the arguments that `encodeDataForExecuteSigned` encodes for it. -/
def SignedMessage.executeArgs (msg : SignedMessage) : Option (Address × ExecuteArgs) := do
  let (wallet, m) ← msg.contractArgs
  let signatures ← toBytes (.string msg.signature)
  return (wallet, { m with signatures })

theorem executeArgs_eq_some {msg : SignedMessage} {wallet : Address} {m : Message}
    {signatures : Bytes} (hargs : msg.contractArgs = some (wallet, m))
    (hsignatures : toBytes (.string msg.signature) = some signatures) :
    msg.executeArgs = some (wallet, { m with signatures }) := by
  simp [SignedMessage.executeArgs, hargs, hsignatures]

end UniversalLogin
