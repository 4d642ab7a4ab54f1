import UniversalLogin.Contracts.Calldata

/-!
# Calldata of administrative calls

What a client encodes to have the keys of a wallet or its threshold changed, and that the wallet
decodes it to the same call (`AdminCall.dispatch_encode`).
-/

namespace UniversalLogin

/-- The tail of an array argument whose elements take a word each. -/
def encodeWords (xs : List Uint256) : Bytes :=
  packUint256 (BitVec.ofNat 256 xs.length) ++ xs.flatMap packUint256

def AdminCall.encode : AdminCall → Bytes
  | addKey key purpose => encodeCall 0xa2d39bdb [key.setWidth 256, purpose]
  | addKeys keys purposes =>
    let tail := encodeWords (keys.map (·.setWidth 256))
    encodeCall 0x775eed68 [64, BitVec.ofNat 256 (64 + tail.length)] ++ tail ++ encodeWords purposes
  | removeKey key purpose => encodeCall 0x81dd7b8e [key.setWidth 256, purpose]
  | setRequiredSignatures requiredSignatures => encodeCall 0x7d2b9cc0 [requiredSignatures]

/-! ## Arrays -/

@[simp] theorem length_encodeWords (xs : List Uint256) :
    (encodeWords xs).length = 32 + 32 * xs.length := by
  rw [encodeWords, List.length_append, length_packUint256, length_flatMap_packUint256]

/-- Words in a row are read one by one. -/
theorem map_wordAt_flatMap {pre post : Bytes} (xs : List Uint256) (hpos : pre.length = pos) :
    (List.range xs.length).map (fun j => wordAt (pre ++ (xs.flatMap packUint256 ++ post))
      (pos + 32 * j)) = xs := by
  induction xs generalizing pre pos with
  | nil => rfl
  | cons x xs ih =>
    have hnext : (pre ++ packUint256 x).length = pos + 32 := by
      rw [List.length_append, length_packUint256, hpos]
    have hassoc : pre ++ ((x :: xs).flatMap packUint256 ++ post) =
        (pre ++ packUint256 x) ++ (xs.flatMap packUint256 ++ post) := by
      simp only [List.flatMap_cons, List.append_assoc]
    rw [List.length_cons, List.range_succ_eq_map, List.map_cons, List.map_map]
    congr 1
    · rw [List.flatMap_cons, List.append_assoc]
      exact wordAt_append hpos
    · have hrest := ih hnext
      rw [← hassoc] at hrest
      conv_rhs => rw [← hrest]
      refine List.map_congr_left fun j _ => ?_
      have hpos : pos + 32 * (j + 1) = pos + 32 + 32 * j := by omega
      rw [Function.comp_apply, Nat.succ_eq_add_one, hpos]

/-- An array is read back from where its head word points to. -/
theorem argWords_of_append {data pre post : Bytes} {xs : List Uint256}
    (hdata : data = pre ++ (encodeWords xs ++ post))
    (hpos : pre.length = 4 + (argUint256 data i).toNat) (hlen : xs.length < 2 ^ 256) :
    argWords data i = some xs := by
  have hword : data = pre ++ (packUint256 (BitVec.ofNat 256 xs.length) ++
      (xs.flatMap packUint256 ++ post)) := by
    rw [hdata, encodeWords, List.append_assoc]
  have hcontents : data = (pre ++ packUint256 (BitVec.ofNat 256 xs.length)) ++
      (xs.flatMap packUint256 ++ post) := by
    rw [hword, List.append_assoc]
  have hlength : (wordAt data (4 + (argUint256 data i).toNat)).toNat = xs.length := by
    conv_lhs => rw [hword]
    rw [wordAt_append (by rw [← hword]; exact hpos), BitVec.toNat_ofNat, Nat.mod_eq_of_lt hlen]
  have htotal : 4 + (argUint256 data i).toNat + 32 + 32 * xs.length ≤ data.length := by
    have hdatalen := congrArg List.length hdata
    rw [List.length_append, List.length_append, length_encodeWords] at hdatalen
    omega
  have hstart : (pre ++ packUint256 (BitVec.ofNat 256 xs.length)).length =
      4 + (argUint256 data i).toNat + 32 := by
    rw [List.length_append, length_packUint256, hpos]
  have hwords : (List.range xs.length).map (fun j => wordAt
      ((pre ++ packUint256 (BitVec.ofNat 256 xs.length)) ++ (xs.flatMap packUint256 ++ post))
      (4 + (argUint256 data i).toNat + 32 + 32 * j)) = xs := map_wordAt_flatMap xs hstart
  rw [← hcontents] at hwords
  rw [argWords]
  simp only [hlength, hwords]
  exact if_pos ⟨by omega, htotal⟩

/-- Two arrays are found where the encoder puts them. -/
theorem argWords_encoded (sel : Nat) (first second : List Uint256) {head : List Uint256}
    (hhead : head = [64, BitVec.ofNat 256 (64 + (encodeWords first).length)])
    (hfirst : first.length < 2 ^ 53) (hsecond : second.length < 2 ^ 53) :
    argWords (encodeCall sel head ++ encodeWords first ++ encodeWords second) 0 = some first ∧
      argWords (encodeCall sel head ++ encodeWords first ++ encodeWords second) 1 =
        some second := by
  have htail := length_encodeWords first
  have hlen : head.length = 2 := congrArg List.length hhead
  constructor
  · have hword : head[0]? = some 64 := by rw [hhead]; rfl
    refine argWords_of_append (List.append_assoc ..) ?_ (by omega)
    rw [List.append_assoc, argUint256_encodeCall hword, length_encodeCall, hlen]
    rfl
  · have hword : head[1]? = some (BitVec.ofNat 256 (64 + (encodeWords first).length)) := by
      rw [hhead]
      rfl
    have hend : encodeCall sel head ++ encodeWords first ++ encodeWords second =
        encodeCall sel head ++ encodeWords first ++ (encodeWords second ++ []) := by
      rw [List.append_nil]
    refine argWords_of_append hend ?_ (by omega)
    rw [List.append_assoc, argUint256_encodeCall hword, List.length_append, length_encodeCall,
      BitVec.toNat_ofNat, Nat.mod_eq_of_lt (by omega)]
    omega

/-! ## Dispatch -/

/-- A function that all wallets have is run with the arguments that its decoder finds. -/
theorem dispatch_eq_of_decode (sel : Nat) (decode : Bytes → Option Call)
    (hlen : 4 ≤ data.length) (hsel : selector data = sel)
    (hfunction : ∀ code, (functions code).lookup sel = some decode)
    (hdecode : decode data = some call) : dispatch code data = call := by
  rw [dispatch, if_neg (by omega), hsel, hfunction]
  simp [hdecode]

/-- Arrays of keys and purposes that a client can hold. -/
def AdminCall.Short : AdminCall → Prop
  | addKeys keys purposes => keys.length < 2 ^ 53 ∧ purposes.length < 2 ^ 53
  | _ => True

/-- A key and a number are decoded. -/
theorem words_keyed (sel : Nat) (key : Address) (x : Uint256) :
    arity 2 (encodeCall sel [key.setWidth 256, x]) = some () ∧
      argAddress (encodeCall sel [key.setWidth 256, x]) 0 = key ∧
      argUint256 (encodeCall sel [key.setWidth 256, x]) 1 = x := by
  rw [← List.append_nil (encodeCall ..)]
  exact ⟨arity_encodeCall le_rfl, argAddress_encodeCall rfl, argUint256_encodeCall rfl⟩

theorem selector_encodeCall_nil (hsel : sel < 256 ^ 4) : selector (encodeCall sel args) = sel := by
  rw [← List.append_nil (encodeCall ..)]
  exact selector_encodeCall hsel

/-- The wallet decodes the call that was encoded. -/
theorem AdminCall.dispatch_encode (c : AdminCall) (hshort : c.Short) :
    dispatch code c.encode = .admin c := by
  cases c with
  | addKey key purpose =>
    obtain ⟨harity, hkey, hpurpose⟩ := words_keyed 0xa2d39bdb key purpose
    refine dispatch_eq_of_decode 0xa2d39bdb decodeAddKey (by simp [encode])
      (selector_encodeCall_nil (by decide)) (fun code => by cases code <;> rfl) ?_
    rw [encode, decodeAddKey, harity, hkey, hpurpose]
    rfl
  | addKeys keys purposes =>
    obtain ⟨hkeys, hpurposes⟩ := hshort
    obtain ⟨hfirst, hsecond⟩ := argWords_encoded 0x775eed68 (keys.map (·.setWidth 256)) purposes
      rfl (by simpa using hkeys) hpurposes
    have hback : (keys.map (·.setWidth 256)).map (·.setWidth 160) = keys := by
      rw [List.map_map]
      refine List.map_id'' (fun a => ?_) keys
      rw [Function.comp_apply, BitVec.setWidth_setWidth_of_le _ (by omega), BitVec.setWidth_eq]
    refine dispatch_eq_of_decode 0x775eed68 decodeAddKeys (by simp [encode]; omega) ?_
      (fun code => by cases code <;> rfl) ?_
    · rw [encode, List.append_assoc]
      exact selector_encodeCall (by decide)
    · rw [encode, decodeAddKeys, hfirst, hsecond, List.append_assoc,
        arity_encodeCall (n := 2) (by simp)]
      exact congrArg (fun keys => some (Call.admin (.addKeys keys purposes))) hback
  | removeKey key purpose =>
    obtain ⟨harity, hkey, hpurpose⟩ := words_keyed 0x81dd7b8e key purpose
    refine dispatch_eq_of_decode 0x81dd7b8e decodeRemoveKey (by simp [encode])
      (selector_encodeCall_nil (by decide)) (fun code => by cases code <;> rfl) ?_
    rw [encode, decodeRemoveKey, harity, hkey, hpurpose]
    rfl
  | setRequiredSignatures requiredSignatures =>
    refine dispatch_eq_of_decode 0x7d2b9cc0 decodeSetRequiredSignatures (by simp [encode])
      (selector_encodeCall_nil (by decide)) (fun code => by cases code <;> rfl) ?_
    rw [encode, decodeSetRequiredSignatures, ← List.append_nil (encodeCall ..),
      arity_encodeCall (n := 1) (by simp), argUint256_encodeCall (i := 0) rfl]
    rfl

end UniversalLogin
