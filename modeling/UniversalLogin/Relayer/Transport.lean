import Mathlib.Data.List.Forall2
import UniversalLogin.Relayer.Serialisation

/-!
# Transport

The forms of a message on its way from the client to the queue. The client makes its numbers
strings and sends it as JSON, the sanitizers of the route (`sanitizers.ts`, `routes/wallet.ts`) make
the numbers `BigNumber`s, and the queue keeps the message as JSON once more. On both ways it stays
the same message if its data are a string or an `Array`. The data of any other list of bytes, such
as a `Uint8Array`, are an object in JSON, which the route refuses (`survives_iff`).
-/

namespace UniversalLogin

/-! ## JSON -/

/-- A value of JSON, as far as messages have such values. -/
inductive Json
  | number (n : Int)
  | string (s : JsString)
  | array (items : List Json)
  | object (fields : List (String × Json))

/-- A value that a sanitizer returns. -/
inductive JsValue
  | json (value : Json)
  | bigNumber (n : Int)

namespace Json

def ofBytes (bs : Bytes) : List Json := bs.map fun b => .number b.toNat

/-- An object that has bytes at their indices. -/
def indexed (bs : Bytes) : Json :=
  .object ((ofBytes bs).zipIdx.map fun (item, i) => (toString i, item))

def toByte : Json → Option UInt8
  | .number n => if 0 ≤ n ∧ n < 256 then some (UInt8.ofNat n.toNat) else none
  | _ => none

/-- The hexadecimal form of a `BigNumber`, with an even number of digits. -/
def hexOfNat (n : Nat) : JsString :=
  let digits := Nat.toDigits 16 n
  '0' :: 'x' :: if digits.length % 2 = 1 then '0' :: digits else digits

def ofBigNumberish : BigNumberish → Json
  | .bigNumber (.ofNat n) => .object [("_hex", .string (hexOfNat n))]
  | .bigNumber (.negSucc n) => .object [("_hex", .string ('-' :: hexOfNat (n + 1)))]
  | .number n => .number n
  | .string s => .string s

/-- The properties of an object. -/
def fields : Json → List (String × JsValue)
  | .object fields => fields.map fun (key, value) => (key, .json value)
  | _ => []

end Json

/-- A signed message as a program holds it: bytes are held in an `Array`, or in another object that
has them at their indices, such as a `Uint8Array`. -/
structure HeldMessage extends SignedMessage where
  isArray : Bool

namespace HeldMessage

variable (m : HeldMessage)

def stringify : HeldMessage :=
  { m with toSignedMessage := stringifySignedMessageFields m.toSignedMessage }

def dataToJson : Json :=
  match m.data with
  | .string s => .string s
  | .bytes bs => if m.isArray then .array (Json.ofBytes bs) else .indexed bs

/-- What `JSON.parse` makes of what `JSON.stringify` makes of a message. -/
def toJson : Json :=
  .object [("gasToken", .string m.gasToken), ("operationType", .number m.operationType),
    ("to", .string m.to_), ("from", .string m.from_), ("nonce", .ofBigNumberish m.nonce),
    ("gasLimit", .ofBigNumberish m.gasLimit), ("gasPrice", .ofBigNumberish m.gasPrice),
    ("data", m.dataToJson), ("value", .ofBigNumberish m.value), ("signature", .string m.signature)]

/-- The data are a string or in an `Array`. -/
def IsPlain : Prop := ∀ bs, m.data = .bytes bs → m.isArray = true

end HeldMessage

/-! ## Reading -/

namespace JsValue

def toJsString : JsValue → Option JsString
  | json (.string s) => some s
  | _ => none

def toNumber : JsValue → Option Int
  | json (.number n) => some n
  | _ => none

def toBigNumberish : JsValue → Option BigNumberish
  | bigNumber n => some (.bigNumber n)
  | json (.number n) => some (.number n)
  | json (.string s) => some (.string s)
  | _ => none

def toArrayish : JsValue → Option Arrayish
  | json (.string s) => some (.string s)
  | json (.array items) => (items.mapM Json.toByte).map .bytes
  | _ => none

end JsValue

/-- The message that an object is, where all of its fields have their types. -/
def SignedMessage.read (fields : List (String × JsValue)) : Option SignedMessage := do
  let gasToken ← (← fields.lookup "gasToken").toJsString
  let operationType ← (← fields.lookup "operationType").toNumber
  let to_ ← (← fields.lookup "to").toJsString
  let from_ ← (← fields.lookup "from").toJsString
  let nonce ← (← fields.lookup "nonce").toBigNumberish
  let gasLimit ← (← fields.lookup "gasLimit").toBigNumberish
  let gasPrice ← (← fields.lookup "gasPrice").toBigNumberish
  let data ← (← fields.lookup "data").toArrayish
  let value ← (← fields.lookup "value").toBigNumberish
  let signature ← (← fields.lookup "signature").toJsString
  return { gasToken, operationType, to_, from_, nonce, gasLimit, gasPrice, data, value, signature }

/-! ## Sanitizers -/

structure SanitizerError where
  path : String
  expected : String
  deriving DecidableEq

/-- A sanitizer is given a property, which may be missing, and its path. -/
abbrev Sanitizer := Option Json → String → Except (List SanitizerError) JsValue

def asBigNumberish : Sanitizer := fun value path =>
  let sanitized (v : BigNumberish) := match bigNumberify v with
    | .ok bigNumber => .ok (.bigNumber bigNumber)
    | .error _ => .error [⟨path, "bigNumber"⟩]
  match value with
  | some (.string s) => sanitized (.string s)
  | some (.number n) => sanitized (.number n)
  | _ => .error [⟨path, "bigNumber"⟩]

def asArrayish : Sanitizer := fun value path =>
  match value with
  | some (.string s) => .ok (.json (.string s))
  | some (.array items) => .ok (.json (.array items))
  | _ => .error [⟨path, "arrayish"⟩]

/-- The sanitizers of the library that the routes are written with. -/
structure Restless where
  asString : Sanitizer
  asNumber : Sanitizer
  asObject : List (String × Sanitizer) → Option Json → String →
    Except (List SanitizerError) (List (String × JsValue))

/-- A string is a string and a number is a number, and of an object each property that the schema
names is sanitized. -/
structure Restless.Documented (restless : Restless) : Prop where
  asString : restless.asString (some (.string s)) path = .ok (.json (.string s))
  asNumber : restless.asNumber (some (.number n)) path = .ok (.json (.number n))
  asObject : restless.asObject schema (some (.object fields)) path = .ok values ↔
    List.Forall₂ (fun p q => q.1 = p.1 ∧
      p.2 (fields.lookup p.1) (path ++ "." ++ p.1) = .ok q.2) schema values

/-- The body of the route `/execution`. -/
def executionSchema (restless : Restless) : List (String × Sanitizer) :=
  [("gasToken", restless.asString), ("operationType", restless.asNumber),
    ("to", restless.asString), ("from", restless.asString), ("nonce", restless.asString),
    ("gasLimit", asBigNumberish), ("gasPrice", asBigNumberish), ("data", asArrayish),
    ("value", asBigNumberish), ("signature", restless.asString)]

namespace HeldMessage

variable (m : HeldMessage)

/-- The message that the relayer receives, unless the route refuses what the client sends. -/
def received (restless : Restless) : Option SignedMessage :=
  match restless.asObject (executionSchema restless) (some m.stringify.toJson) "body" with
  | .ok body => SignedMessage.read body
  | .error _ => none

/-- The message that `getNext` returns of what `add` has written into a column of JSON. -/
def queued : Option SignedMessage := do
  let message ← SignedMessage.read m.stringify.toJson.fields
  (bignumberifySignedMessageFields message).toOption

/-- The hash stays the same on both ways, and in the queue the calldata do. -/
structure Survives (crypto : Crypto) (restless : Restless) : Prop where
  received : ∃ m' : SignedMessage, m.received restless = some m' ∧
    calculateMessageHash crypto m'.toUnsignedMessage =
      calculateMessageHash crypto m.toUnsignedMessage
  queued : ∃ m' : SignedMessage, m.queued = some m' ∧
    calculateMessageHash crypto m'.toUnsignedMessage =
      calculateMessageHash crypto m.toUnsignedMessage ∧
    encodeDataForExecuteSigned m' = encodeDataForExecuteSigned m.toSignedMessage

end HeldMessage

/-! ## The same message -/

theorem SignedMessage.Same.encodeDataForExecuteSigned_eq {m m' : SignedMessage} (h : m.Same m') :
    encodeDataForExecuteSigned m = encodeDataForExecuteSigned m' := by
  simp only [encodeDataForExecuteSigned, encodeUint, h.to_, h.value, h.data, h.nonce, h.gasPrice,
    h.gasToken, h.gasLimit, h.operationType, h.signature]

theorem mapM_toByte_ofBytes (bs : Bytes) : (Json.ofBytes bs).mapM Json.toByte = some bs := by
  induction bs with
  | nil => rfl
  | cons b bs ih =>
    have hb : Json.toByte (.number b.toNat) = some b := by
      have hlt := b.toNat_lt
      rw [Json.toByte, if_pos (by omega)]
      simp
    rw [Json.ofBytes] at ih ⊢
    rw [List.map_cons, List.mapM_cons, hb, ih]
    rfl

/-- What the numbers are made is a string, but for zero. -/
theorem BigNumberish.stringify_cases (v : BigNumberish) :
    (∃ s, v.stringify = .string s) ∨ ∃ n, v.stringify = .number n := by
  rw [stringify]
  split
  · exact .inl ⟨_, rfl⟩
  · cases v with
    | bigNumber n => contradiction
    | number n => exact .inr ⟨n, rfl⟩
    | string s => exact .inl ⟨s, rfl⟩

theorem toBigNumberish_stringify (v : BigNumberish) :
    (JsValue.json (.ofBigNumberish v.stringify)).toBigNumberish = some v.stringify := by
  rcases v.stringify_cases with ⟨s, hs⟩ | ⟨n, hn⟩
  · rw [hs]
    rfl
  · rw [hn]
    rfl

theorem asBigNumberish_stringify (h : bigNumberify v = .ok n) (path : String) :
    asBigNumberish (some (.ofBigNumberish v.stringify)) path = .ok (.bigNumber n) := by
  have hstringify := bigNumberify_stringify h
  rcases v.stringify_cases with ⟨s, hs⟩ | ⟨k, hk⟩
  · rw [hs] at hstringify ⊢
    simp [Json.ofBigNumberish, asBigNumberish, hstringify]
  · rw [hk] at hstringify ⊢
    simp [Json.ofBigNumberish, asBigNumberish, hstringify]

/-- A body is accepted only if each of its properties is. -/
theorem Restless.Documented.exists_of_mem {restless : Restless} (hrestless : restless.Documented)
    (h : restless.asObject schema (some (.object fields)) path = .ok values)
    (hmem : p ∈ schema) : ∃ v, p.2 (fields.lookup p.1) (path ++ "." ++ p.1) = .ok v := by
  have hfields := hrestless.asObject.mp h
  clear h
  induction hfields with
  | nil => cases hmem
  | cons hfirst _ ih =>
    rcases List.mem_cons.mp hmem with rfl | hmem
    · exact ⟨_, hfirst.2⟩
    · exact ih hmem

/-- The message that the fields of an object make. -/
theorem SignedMessage.read_eq {nonce gasLimit gasPrice data value : JsValue}
    {m : SignedMessage} (hnonce : nonce.toBigNumberish = some m.nonce)
    (hgasLimit : gasLimit.toBigNumberish = some m.gasLimit)
    (hgasPrice : gasPrice.toBigNumberish = some m.gasPrice)
    (hdata : data.toArrayish = some m.data)
    (hvalue : value.toBigNumberish = some m.value) :
    SignedMessage.read [("gasToken", .json (.string m.gasToken)),
      ("operationType", .json (.number m.operationType)),
      ("to", .json (.string m.to_)), ("from", .json (.string m.from_)),
      ("nonce", nonce), ("gasLimit", gasLimit), ("gasPrice", gasPrice), ("data", data),
      ("value", value), ("signature", .json (.string m.signature))] = some m := by
  change (do
    let nonce ← nonce.toBigNumberish
    let gasLimit ← gasLimit.toBigNumberish
    let gasPrice ← gasPrice.toBigNumberish
    let data ← data.toArrayish
    let value ← value.toBigNumberish
    return { m with nonce, gasLimit, gasPrice, data, value }) = some m
  rw [hnonce, hgasLimit, hgasPrice, hdata, hvalue]
  rfl

namespace HeldMessage

variable {m : HeldMessage}

theorem IsPlain.toArrayish_eq (h : m.IsPlain) :
    (JsValue.json m.dataToJson).toArrayish = some m.data := by
  rw [dataToJson]
  cases hdata : m.data with
  | string s => rfl
  | bytes bs =>
    simp only [h bs hdata, if_true, JsValue.toArrayish, mapM_toByte_ofBytes]
    rfl

theorem IsPlain.asArrayish_eq (h : m.IsPlain) (path : String) :
    asArrayish (some m.dataToJson) path = .ok (.json m.dataToJson) := by
  rw [dataToJson]
  cases hdata : m.data with
  | string s => rfl
  | bytes bs =>
    simp only [h bs hdata, if_true]
    rfl

theorem IsPlain.stringify (h : m.IsPlain) : m.stringify.IsPlain := h

/-- A column of JSON keeps what is written into it. -/
theorem read_fields (h : m.IsPlain) :
    SignedMessage.read m.stringify.toJson.fields = some m.stringify.toSignedMessage := by
  have hdata := h.stringify.toArrayish_eq
  exact SignedMessage.read_eq rfl (toBigNumberish_stringify _) (toBigNumberish_stringify _) hdata
    (toBigNumberish_stringify _)

theorem exists_queued (h : m.IsPlain) (hnumbers : m.HasNumbers) :
    ∃ m' : SignedMessage, m.queued = some m' ∧ m'.Same m.toSignedMessage := by
  obtain ⟨m', hm', hsame⟩ := bignumberify_stringify_of_hasNumbers hnumbers
  refine ⟨m', ?_, hsame⟩
  rw [queued, read_fields h]
  change (bignumberifySignedMessageFields (stringifySignedMessageFields m.toSignedMessage)).toOption
    = some m'
  rw [hm']
  rfl

variable {restless : Restless}

theorem exists_received (hrestless : restless.Documented) (h : m.IsPlain)
    (hnumbers : m.HasNumbers) :
    ∃ m' : SignedMessage, m.received restless = some m' ∧ m'.Same m.toSignedMessage := by
  obtain ⟨⟨value, hvalue⟩, ⟨gasLimit, hgasLimit⟩, ⟨gasPrice, hgasPrice⟩, ⟨nonce, hnonce⟩⟩ :=
    hnumbers
  let m' : SignedMessage := { m.toSignedMessage with
    nonce := .string m.nonce.toJsString
    gasLimit := .bigNumber gasLimit
    gasPrice := .bigNumber gasPrice
    value := .bigNumber value }
  have hbody : restless.asObject (executionSchema restless) (some m.stringify.toJson) "body" =
      .ok [("gasToken", .json (.string m.gasToken)),
        ("operationType", .json (.number m.operationType)), ("to", .json (.string m.to_)),
        ("from", .json (.string m.from_)), ("nonce", .json (.string m.nonce.toJsString)),
        ("gasLimit", .bigNumber gasLimit), ("gasPrice", .bigNumber gasPrice),
        ("data", .json m.dataToJson), ("value", .bigNumber value),
        ("signature", .json (.string m.signature))] := by
    refine hrestless.asObject.mpr ?_
    refine .cons ⟨rfl, hrestless.asString⟩ <| .cons ⟨rfl, hrestless.asNumber⟩ <|
      .cons ⟨rfl, hrestless.asString⟩ <| .cons ⟨rfl, hrestless.asString⟩ <|
      .cons ⟨rfl, hrestless.asString⟩ <| .cons ⟨rfl, asBigNumberish_stringify hgasLimit _⟩ <|
      .cons ⟨rfl, asBigNumberish_stringify hgasPrice _⟩ <| .cons ⟨rfl, h.asArrayish_eq _⟩ <|
      .cons ⟨rfl, asBigNumberish_stringify hvalue _⟩ <| .cons ⟨rfl, hrestless.asString⟩ .nil
  refine ⟨m', ?_, ?_⟩
  · rw [received, hbody]
    exact SignedMessage.read_eq (m := m') rfl rfl rfl h.toArrayish_eq rfl
  · constructor
    case nonce => exact (bigNumberify_toJsString hnonce).trans hnonce.symm
    case gasLimit => exact hgasLimit.symm
    case gasPrice => exact hgasPrice.symm
    case value => exact hvalue.symm
    all_goals rfl

/-- The route accepts the data of a string or an `Array` only. -/
theorem isPlain_of_received (hrestless : restless.Documented)
    (h : m.received restless = some m') : m.IsPlain := by
  intro bs hbs
  by_contra hother
  rw [received] at h
  split at h
  · next body hbody =>
    obtain ⟨v, hv⟩ := hrestless.exists_of_mem (p := ("data", asArrayish)) hbody (by
      simp [executionSchema])
    change asArrayish (some m.dataToJson) _ = _ at hv
    rw [dataToJson, hbs] at hv
    simp only [hother] at hv
    cases hv
  · cases h

/-- A message whose numbers are numbers stays the same on both ways exactly if its data are a
string or in an `Array`. -/
theorem survives_iff {crypto : Crypto} {restless : Restless} {m : HeldMessage}
    (hrestless : restless.Documented) (hnumbers : m.HasNumbers) :
    m.Survives crypto restless ↔ m.IsPlain := by
  constructor
  · intro h
    obtain ⟨m', hreceived, _⟩ := h.received
    exact isPlain_of_received hrestless hreceived
  · intro h
    obtain ⟨received, hreceived, hsame⟩ := exists_received hrestless h hnumbers
    obtain ⟨queued, hqueued, hsame'⟩ := exists_queued h hnumbers
    constructor
    case received => exact ⟨received, hreceived, hsame.calculateMessageHash_eq crypto⟩
    case queued =>
      exact ⟨queued, hqueued, hsame'.calculateMessageHash_eq crypto,
        hsame'.encodeDataForExecuteSigned_eq⟩

end HeldMessage

namespace Sample

/-- To sanitize the properties one after another, and to collect the errors. -/
def asFields (fields : List (String × Json)) (path : String) :
    List (String × Sanitizer) → Except (List SanitizerError) (List (String × JsValue))
  | [] => .ok []
  | (key, sanitizer) :: schema =>
    match sanitizer (fields.lookup key) (path ++ "." ++ key), asFields fields path schema with
    | .ok value, .ok values => .ok ((key, value) :: values)
    | .error e, .ok _ | .ok _, .error e => .error e
    | .error e, .error e' => .error (e ++ e')

def restless : Restless where
  asString value path :=
    match value with
    | some (.string s) => .ok (.json (.string s))
    | _ => .error [⟨path, "string"⟩]
  asNumber value path :=
    match value with
    | some (.number n) => .ok (.json (.number n))
    | _ => .error [⟨path, "number"⟩]
  asObject schema value path :=
    match value with
    | some (.object fields) => asFields fields path schema
    | _ => .error [⟨path, "object"⟩]

theorem asFields_eq_ok : asFields fields path schema = .ok values ↔
    List.Forall₂ (fun p q => q.1 = p.1 ∧
      p.2 (fields.lookup p.1) (path ++ "." ++ p.1) = .ok q.2) schema values := by
  induction schema generalizing values with
  | nil => simp [asFields, eq_comm]
  | cons p schema ih =>
    obtain ⟨key, sanitizer⟩ := p
    rw [List.forall₂_cons_left_iff]
    simp only [asFields, ← ih]
    constructor
    · intro h
      split at h
      · next value values hvalue hvalues =>
        cases h
        exact ⟨_, _, ⟨rfl, hvalue⟩, hvalues, rfl⟩
      all_goals cases h
    · rintro ⟨⟨_, value⟩, values, ⟨rfl, hvalue⟩, hvalues, rfl⟩
      simp only [hvalue, hvalues]

theorem documented_restless : restless.Documented where
  asString := rfl
  asNumber := rfl
  asObject := asFields_eq_ok

/-- The sample message with data of two bytes. -/
def held (isArray : Bool) : HeldMessage where
  toUnsignedMessage := { unsigned with data := .bytes [1, 2] }
  signature := hexlify byActor.bytes
  isArray

end Sample

theorem survives_sample : (Sample.held true).Survives Sample.crypto Sample.restless :=
  (HeldMessage.survives_iff Sample.documented_restless
    ⟨⟨0, rfl⟩, ⟨1000000, by decide⟩, ⟨1, by decide⟩, ⟨0, by decide⟩⟩).mpr fun _ _ => rfl

/-- The same message with its data in a `Uint8Array` does not reach the relayer. -/
theorem not_survives_sample : ¬ (Sample.held false).Survives Sample.crypto Sample.restless := by
  intro h
  obtain ⟨_, hreceived, _⟩ := h.received
  cases HeldMessage.isPlain_of_received Sample.documented_restless hreceived [1, 2] rfl

end UniversalLogin
