import UniversalLogin.Contracts.Calldata
import UniversalLogin.Relayer.MessageExecutor

/-!
# Serialisation

`decodeDataForExecuteSigned` undoes `encodeDataForExecuteSigned` but for the nonce: the argument is
decoded as a `BigNumber`, whose decimal digits are then read as hexadecimal ones. The two readings
agree on a single digit, and the hexadecimal one is larger from 10 on (`parseHexOfDecimal_eq_iff`).
-/

namespace UniversalLogin

/-! ## Encoding -/

theorem encodeUint_eq_ok {v : BigNumberish} {x : Uint256} :
    encodeUint 256 v = .ok x ↔ toUint256 v = some x := by
  rw [encodeUint, toUint256]
  cases bigNumberify v with
  | error _ => simp
  | ok n =>
    simp only
    split <;> simp

theorem encodeUint_eq {v : BigNumberish} {x : Uint256} (h : toUint256 v = some x) :
    encodeUint 256 v = .ok x :=
  encodeUint_eq_ok.mpr h

theorem encodeAddress_eq (h : toAddress s = some a) : encodeAddress s = .ok (a.setWidth 256) := by
  rw [encodeAddress, h]

theorem encodeUint_operationType (h : toOperationType n = some x) :
    encodeUint 8 (.number n) = .ok x.toUint256 := by
  rw [toOperationType] at h
  split at h
  · next hn =>
    cases h
    rw [hn]
    rfl
  split at h
  · next hn =>
    cases h
    rw [hn]
    rfl
  split at h
  · next hn =>
    cases h
    rw [hn]
    rfl
  · cases h

theorem arrayify_of_toBytes (h : toBytes a = some bs) : arrayify a = .ok bs := by
  rw [toBytes] at h
  split at h
  · next heq =>
    cases h
    exact heq
  · cases h

/-- A message that stands for arguments of the contract is encoded as a call with them. -/
theorem encodeDataForExecuteSigned_eq {message : SignedMessage} {wallet : Address}
    {args : ExecuteArgs} (h : message.executeArgs = some (wallet, args)) :
    encodeDataForExecuteSigned message = .ok (encodeExecuteSigned args) := by
  simp only [SignedMessage.executeArgs, Option.bind_eq_bind, Option.bind_eq_some_iff,
    Option.pure_def, Option.some.injEq, Prod.mk.injEq] at h
  obtain ⟨⟨_, m⟩, hm, signatures, hsignatures, rfl, rfl⟩ := h
  obtain ⟨_, hto, hvalue, hdata, hnonce, hprice, htoken, hlimit, htype⟩ :=
    contractArgs_eq_some.mp hm
  rw [encodeDataForExecuteSigned, encodeAddress_eq hto, encodeUint_eq hvalue,
    arrayify_of_toBytes hdata, encodeUint_eq hnonce, encodeUint_eq hprice, encodeAddress_eq htoken,
    encodeUint_eq hlimit, encodeUint_operationType htype, arrayify_of_toBytes hsignatures]
  rfl

/-! ## Decoding -/

/-- The message without the wallet that it comes from. -/
def ExecuteArgs.withoutFrom (args : ExecuteArgs) : MessageWithoutFrom where
  to_ := args.to_
  value := args.value
  data := args.data
  nonce := args.nonce.toNat
  gasPrice := args.gasPrice
  gasToken := args.gasToken
  gasLimit := args.gasLimit
  operationType := args.operationType.toUint256.toNat
  signature := args.signatures

/-- The data and the signatures are no longer than what JavaScript has strings for. -/
structure ExecuteArgs.Short (args : ExecuteArgs) : Prop where
  data : args.data.length < 2 ^ 53
  signatures : args.signatures.length < 2 ^ 53

/-- The words are found where the encoder has put them. -/
theorem words_encodeExecuteSigned (args : ExecuteArgs) :
    arity 9 (encodeExecuteSigned args) = some () ∧
      argAddress (encodeExecuteSigned args) 0 = args.to_ ∧
      argUint256 (encodeExecuteSigned args) 1 = args.value ∧
      argUint256 (encodeExecuteSigned args) 3 = args.nonce ∧
      argUint256 (encodeExecuteSigned args) 4 = args.gasPrice ∧
      argAddress (encodeExecuteSigned args) 5 = args.gasToken ∧
      argUint256 (encodeExecuteSigned args) 6 = args.gasLimit ∧
      argUint256 (encodeExecuteSigned args) 7 = args.operationType.toUint256 := by
  rw [encodeExecuteSigned, List.append_assoc]
  exact ⟨arity_encodeCall (by simp), argAddress_encodeCall rfl, argUint256_encodeCall rfl,
    argUint256_encodeCall rfl, argUint256_encodeCall rfl, argAddress_encodeCall rfl,
    argUint256_encodeCall rfl, argUint256_encodeCall rfl⟩

/-- Every field is decoded as it was encoded, but for the two that are parsed. -/
theorem decodeDataForExecuteSigned_encodeExecuteSigned {args : ExecuteArgs} (hshort : args.Short) :
    decodeDataForExecuteSigned (encodeExecuteSigned args) = .ok { args.withoutFrom with
      nonce := parseHexOfDecimal args.nonce.toNat
      operationType := parseHexOfDecimal args.operationType.toUint256.toNat } := by
  obtain ⟨hdata, hsignatures⟩ : argBytes (encodeExecuteSigned args) 2 = some args.data ∧
      argBytes (encodeExecuteSigned args) 8 = some args.signatures :=
    argBytes_encoded _ _ 2 8 (by simp) rfl rfl hshort.data hshort.signatures
  obtain ⟨harity, hto, hvalue, hnonce, hprice, htoken, hlimit, htype⟩ :=
    words_encodeExecuteSigned args
  have hsmall : args.operationType.toUint256.toNat % 2 ^ 8 = args.operationType.toUint256.toNat := by
    cases args.operationType <;> rfl
  rw [decodeDataForExecuteSigned, harity, hdata, hsignatures, hto, hvalue, hnonce, hprice, htoken,
    hlimit, htype, hsmall]
  rfl

theorem length_le_of_arrayify {s : JsString} (h : arrayify (.string s) = .ok bs) :
    bs.length ≤ s.length := by
  obtain ⟨cs, rfl, hdecode⟩ := arrayify_eq_ok.mp h
  have hlen := Hex.length_of_decode hdecode
  split at hlen <;> simp only [List.length_cons] at hlen ⊢ <;> omega

/-- The receiver and the data are decoded as they were encoded, whatever the numbers are. -/
theorem decodeDataForExecuteSigned_of_encode {message : SignedMessage}
    (hencode : encodeDataForExecuteSigned message = .ok data) (hto : toAddress message.to_ = some a)
    (hdata : arrayify message.data = .ok bs) (hdatashort : bs.length < 2 ^ 53)
    (hsignatureshort : message.signature.length < 2 ^ 53) :
    ∃ m, decodeDataForExecuteSigned data = .ok m ∧ m.to_ = a ∧ m.data = bs := by
  simp only [encodeDataForExecuteSigned, encodeAddress_eq hto, hdata, except_bind_eq_ok,
    except_pure_eq_ok, Except.ok.injEq, exists_eq_left'] at hencode
  obtain ⟨value, _, nonce, _, gasPrice, _, gasToken, _, gasLimit, _, operationType, _, signature,
    hsignature, rfl⟩ := hencode
  have hshort := length_le_of_arrayify hsignature
  obtain ⟨hbytes, hbytes'⟩ := argBytes_encoded 0x6d633064 [a.setWidth 256, value, 288, nonce,
    gasPrice, gasToken, gasLimit, operationType, BitVec.ofNat 256 (288 + (encodeBytes bs).length)]
    2 8 (by simp) rfl rfl hdatashort (show signature.length < 2 ^ 53 by omega)
  rw [decodeDataForExecuteSigned, hbytes, hbytes', List.append_assoc,
    arity_encodeCall (by simp), argAddress_encodeCall (i := 0) rfl]
  exact ⟨_, rfl, rfl, rfl⟩

/-! ## Decimal digits read as hexadecimal ones -/

theorem nearestNumber_of_lt (h : n < 2 ^ 53) : nearestNumber n = n := by
  have hlog : n.log2 - 52 = 0 := by
    rcases Nat.eq_zero_or_pos n with rfl | hpos
    · rfl
    · have := (Nat.log2_lt (by omega)).mpr h
      omega
  simp [nearestNumber, hlog, Nat.mod_one]

/-- A number changes by less than the unit in the last of its 53 places. -/
theorem le_nearestNumber (n : Nat) : 7 * n ≤ 8 * nearestNumber n := by
  by_cases hlt : n < 2 ^ 53
  · rw [nearestNumber_of_lt hlt]
    omega
  have hlog : 52 ≤ n.log2 := by
    have := (Nat.le_log2 (by omega)).mpr (show 2 ^ 53 ≤ n by omega)
    omega
  have hunit : 0 < 2 ^ (n.log2 - 52) := by positivity
  have hplaces : 8 * 2 ^ (n.log2 - 52) ≤ n := calc
    8 * 2 ^ (n.log2 - 52) ≤ 2 ^ 52 * 2 ^ (n.log2 - 52) := Nat.mul_le_mul_right _ (by norm_num)
    _ = 2 ^ n.log2 := by rw [← pow_add]; congr 1; omega
    _ ≤ n := Nat.log2_self_le (by omega)
  have hrest := Nat.mod_lt n hunit
  simp only [nearestNumber]
  split <;> omega

theorem ofDigits_digits_lt (h : n < 10) : Nat.ofDigits 16 (Nat.digits 10 n) = n := by
  rcases Nat.eq_zero_or_pos n with rfl | hpos
  · rfl
  · rw [Nat.digits_of_lt 10 n (by omega) h, Nat.ofDigits_singleton]

theorem ofDigits_digits_add (n : Nat) : Nat.ofDigits 16 (Nat.digits 10 n) =
    n % 10 + 16 * Nat.ofDigits 16 (Nat.digits 10 (n / 10)) := by
  rcases Nat.eq_zero_or_pos n with rfl | hpos
  · rfl
  · rw [Nat.digits_def' (by norm_num) hpos, Nat.ofDigits_cons]

theorem le_ofDigits_digits (n : Nat) : n ≤ Nat.ofDigits 16 (Nat.digits 10 n) := by
  induction n using Nat.strongRecOn with
  | ind n ih =>
    by_cases hlt : n < 10
    · rw [ofDigits_digits_lt hlt]
    · have := ih (n / 10) (by omega)
      rw [ofDigits_digits_add]
      omega

/-- The digits of a number read as hexadecimal ones denote it if there is only one. -/
theorem parseHexOfDecimal_eq_iff : parseHexOfDecimal n = n ↔ n < 10 := by
  rw [parseHexOfDecimal]
  constructor
  · intro h
    by_contra hge
    -- from the second digit on the hexadecimal reading is larger by more than the rounding takes off
    have hrest := le_ofDigits_digits (n / 10)
    have hsum := ofDigits_digits_add n
    have hround := le_nearestNumber (Nat.ofDigits 16 (Nat.digits 10 n))
    omega
  · intro hlt
    rw [ofDigits_digits_lt hlt, nearestNumber_of_lt (by omega)]

/-! ## The round trip -/

/-- An encoded message is decoded as it was, without the wallet that it comes from, exactly if its
nonce is a single digit. -/
theorem decodeDataForExecuteSigned_encode_iff {message : SignedMessage} {wallet : Address}
    {args : ExecuteArgs} (hargs : message.executeArgs = some (wallet, args)) (hshort : args.Short) :
    encodeDataForExecuteSigned message >>= decodeDataForExecuteSigned = .ok args.withoutFrom ↔
      args.nonce.toNat < 10 := by
  have htype : parseHexOfDecimal args.operationType.toUint256.toNat =
      args.operationType.toUint256.toNat := parseHexOfDecimal_eq_iff.mpr (by
    cases args.operationType <;> decide)
  rw [encodeDataForExecuteSigned_eq hargs, except_bind_eq_ok]
  simp only [Except.ok.injEq, exists_eq_left',
    decodeDataForExecuteSigned_encodeExecuteSigned hshort, htype]
  rw [← parseHexOfDecimal_eq_iff]
  exact ⟨fun h => congrArg MessageWithoutFrom.nonce h, fun h => by rw [h]; rfl⟩

namespace Sample

/-- The sample message with a nonce, not signed. -/
def numbered (nonce : Uint256) : SignedMessage :=
  { unsigned with nonce := .bigNumber nonce.toNat, signature := hexlify [] }

def numberedArgs (nonce : Uint256) : ExecuteArgs :=
  { message with nonce, signatures := [] }

theorem executeArgs_numbered (nonce : Uint256) :
    (numbered nonce).executeArgs = some (wallet, numberedArgs nonce) := by
  obtain ⟨hfrom, hto, hvalue, hdata, _, hprice, htoken, hlimit, htype⟩ :=
    contractArgs_eq_some.mp contractArgs_unsigned
  have hnonce : toUint256 (.bigNumber nonce.toNat) = some nonce := by
    have hlt := nonce.isLt
    simp only [toUint256, bigNumberify]
    rw [if_pos ⟨by omega, by omega⟩, Int.toNat_natCast, BitVec.ofNat_toNat, BitVec.setWidth_eq]
  exact executeArgs_eq_some (contractArgs_eq_some.mpr
    ⟨hfrom, hto, hvalue, hdata, hnonce, hprice, htoken, hlimit, htype⟩)
    (by rw [toBytes, numbered, arrayify_hexlify])

theorem short_numberedArgs (nonce : Uint256) : (numberedArgs nonce).Short where
  data := show message.data.length < 2 ^ 53 by decide
  signatures := show 0 < 2 ^ 53 by decide

end Sample

theorem decodeDataForExecuteSigned_encode_sample :
    encodeDataForExecuteSigned (Sample.numbered 9) >>= decodeDataForExecuteSigned =
      .ok (Sample.numberedArgs 9).withoutFrom :=
  (decodeDataForExecuteSigned_encode_iff (Sample.executeArgs_numbered 9)
    (Sample.short_numberedArgs 9)).mpr (by decide)

/-- The nonce 10 is decoded as 16. -/
theorem decodeDataForExecuteSigned_encode_ten :
    encodeDataForExecuteSigned (Sample.numbered 10) >>= decodeDataForExecuteSigned =
      .ok { (Sample.numberedArgs 10).withoutFrom with nonce := 16 } ∧
    (Sample.numberedArgs 10).withoutFrom.nonce = 10 := by
  refine ⟨?_, rfl⟩
  rw [encodeDataForExecuteSigned_eq (Sample.executeArgs_numbered 10), except_bind_eq_ok]
  refine ⟨_, rfl, ?_⟩
  rw [decodeDataForExecuteSigned_encodeExecuteSigned (Sample.short_numberedArgs 10)]
  have hnonce : parseHexOfDecimal 10 = 16 := by
    have hdigits : Nat.ofDigits 16 (Nat.digits 10 10) = 16 := by norm_num [Nat.ofDigits]
    rw [parseHexOfDecimal, hdigits, nearestNumber_of_lt (by norm_num)]
  have htype : parseHexOfDecimal 0 = 0 := parseHexOfDecimal_eq_iff.mpr (by norm_num)
  change Except.ok { (Sample.numberedArgs 10).withoutFrom with
    nonce := parseHexOfDecimal 10, operationType := parseHexOfDecimal 0 } = _
  rw [hnonce, htype]
  rfl

end UniversalLogin
