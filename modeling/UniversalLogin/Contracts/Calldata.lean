import UniversalLogin.Contracts.Calls

/-!
# Calldata

What the decoder reads of calldata that the encoder has written. Words stand at fixed positions
(`argUint256_encodeCall`), and a `bytes` argument stands where its head word says it does
(`argBytes_of_append`).
-/

namespace UniversalLogin

@[simp] theorem length_packUint256 : (packUint256 x).length = 32 := by simp [packUint256]

theorem length_flatMap_packUint256 {args : List Uint256} :
    (args.flatMap packUint256).length = 32 * args.length := by
  induction args with
  | nil => rfl
  | cons x args ih =>
    rw [List.flatMap_cons, List.length_append, length_packUint256, ih, List.length_cons]
    omega

@[simp] theorem length_encodeCall : (encodeCall sel args).length = 4 + 32 * args.length := by
  rw [encodeCall, List.length_append, BigEndian.length_encode, length_flatMap_packUint256]

theorem slice_append (h : pre.length = pos) (hlen : bs.length = len) :
    slice (pre ++ (bs ++ post)) pos len = bs := by
  rw [slice_eq_take (by simp; omega), List.drop_left' h, List.take_left' hlen]

theorem wordAt_append (h : pre.length = pos) : wordAt (pre ++ (packUint256 x ++ post)) pos = x := by
  have hlt : x.toNat < 256 ^ 32 := x.isLt
  rw [wordAt, slice_append h length_packUint256, packUint256, BigEndian.decode_encode_of_lt hlt,
    BitVec.ofNat_toNat, BitVec.setWidth_eq]

theorem arity_encodeCall (h : n ≤ args.length) :
    arity n (encodeCall sel args ++ rest) = some () := by
  have hlen : 4 + 32 * n ≤ (encodeCall sel args ++ rest).length := by
    rw [List.length_append, length_encodeCall]
    omega
  rw [arity, if_pos hlen]

/-- The words of a call are read back. -/
theorem argUint256_encodeCall (h : args[i]? = some x) :
    argUint256 (encodeCall sel args ++ rest) i = x := by
  obtain ⟨hi, rfl⟩ := List.getElem?_eq_some_iff.mp h
  have hsplit : encodeCall sel args ++ rest =
      (BigEndian.encode 4 sel ++ (args.take i).flatMap packUint256) ++
        (packUint256 args[i] ++ ((args.drop (i + 1)).flatMap packUint256 ++ rest)) := by
    conv_lhs => rw [encodeCall, ← List.take_append_drop i args, List.drop_eq_getElem_cons hi]
    simp only [List.flatMap_append, List.flatMap_cons, List.append_assoc]
  have hpos : (BigEndian.encode 4 sel ++ (args.take i).flatMap packUint256).length =
      4 + 32 * i := by
    rw [List.length_append, BigEndian.length_encode, length_flatMap_packUint256, List.length_take,
      Nat.min_eq_left hi.le]
  rw [argUint256, hsplit, wordAt_append hpos]

theorem argAddress_encodeCall {a : Address} (h : args[i]? = some (a.setWidth 256)) :
    argAddress (encodeCall sel args ++ rest) i = a := by
  rw [argAddress, argUint256_encodeCall h, BitVec.setWidth_setWidth_of_le _ (by omega),
    BitVec.setWidth_eq]

theorem length_encodeBytes (bs : Bytes) :
    (encodeBytes bs).length = 32 + (bs.length + 31) / 32 * 32 := by
  have hle : bs.length ≤ (bs.length + 31) / 32 * 32 := by omega
  simp only [encodeBytes, List.length_append, length_packUint256, List.rightpad,
    List.length_replicate]
  omega

/-- A `bytes` argument is read back from where its head word points to. -/
theorem argBytes_of_append {data pre post bs : Bytes}
    (hdata : data = pre ++ (encodeBytes bs ++ post))
    (hpos : pre.length = 4 + (argUint256 data i).toNat) (hlen : bs.length < 2 ^ 256) :
    argBytes data i = some bs := by
  have hword : data = pre ++ (packUint256 (BitVec.ofNat 256 bs.length) ++
      (bs.rightpad ((bs.length + 31) / 32 * 32) 0 ++ post)) := by
    rw [hdata, encodeBytes, List.append_assoc]
  have hcontents : data = (pre ++ packUint256 (BitVec.ofNat 256 bs.length)) ++
      (bs ++ (List.replicate ((bs.length + 31) / 32 * 32 - bs.length) 0 ++ post)) := by
    rw [hword, List.rightpad]
    simp
  have hlength : (wordAt data (4 + (argUint256 data i).toNat)).toNat = bs.length := by
    conv_lhs => rw [hword]
    rw [wordAt_append (by rw [← hword]; exact hpos), BitVec.toNat_ofNat, Nat.mod_eq_of_lt hlen]
  have htotal : 4 + (argUint256 data i).toNat + 32 + bs.length ≤ data.length := by
    have hdatalen := congrArg List.length hdata
    rw [List.length_append, List.length_append, length_encodeBytes] at hdatalen
    omega
  have hslice : slice data (4 + (argUint256 data i).toNat + 32) bs.length = bs := by
    conv_lhs => rw [hcontents]
    refine slice_append ?_ rfl
    rw [← hcontents, List.length_append, length_packUint256, hpos]
  rw [argBytes]
  simp only [hlength, hslice]
  exact if_pos ⟨by omega, htotal⟩

/-- Two `bytes` arguments are found where the encoder puts them: the first one after the words of
the head, and the second one after the first. -/
theorem argBytes_encoded {first second : Bytes} (sel : Nat) (head : List Uint256) (i j : Nat)
    (hlen : head.length < 2 ^ 32)
    (hfirst : head[i]? = some (BitVec.ofNat 256 (32 * head.length)))
    (hsecond : head[j]? = some (BitVec.ofNat 256 (32 * head.length + (encodeBytes first).length)))
    (hfirstshort : first.length < 2 ^ 53) (hsecondshort : second.length < 2 ^ 53) :
    argBytes (encodeCall sel head ++ encodeBytes first ++ encodeBytes second) i = some first ∧
      argBytes (encodeCall sel head ++ encodeBytes first ++ encodeBytes second) j =
        some second := by
  have htail := length_encodeBytes first
  constructor
  · refine argBytes_of_append (List.append_assoc ..) ?_ (by omega)
    rw [List.append_assoc, argUint256_encodeCall hfirst, length_encodeCall, BitVec.toNat_ofNat,
      Nat.mod_eq_of_lt (by omega)]
  · have hend : encodeCall sel head ++ encodeBytes first ++ encodeBytes second =
        encodeCall sel head ++ encodeBytes first ++ (encodeBytes second ++ []) := by
      rw [List.append_nil]
    refine argBytes_of_append hend ?_ (by omega)
    rw [List.append_assoc, argUint256_encodeCall hsecond, List.length_append, length_encodeCall,
      BitVec.toNat_ofNat, Nat.mod_eq_of_lt (by omega)]
    omega

end UniversalLogin
