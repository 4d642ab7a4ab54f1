import UniversalLogin.Contracts.Calls
import UniversalLogin.Lib.Reentrancy

/-!
# A wallet among other contracts

What a wallet does when it is called, up to its first external call, and how it goes on when that
call has ended: `executeSigned` with the refund, and the initialize functions of `WalletMaster` and
`WalletMasterWithRefund` with the ENS registration. Together they make a `Reentrancy.Contract`,
whose runs are the runs of one wallet among arbitrary other contracts.

A world carries, besides storage, balance and events, a history variable: the operations that have
taken effect. A failing call takes it back together with the storage.
-/

namespace UniversalLogin

/-- An operation that has taken effect. -/
inductive Entry
  /-- An `executeSigned` that has passed its checks. -/
  | executed (args : ExecuteArgs)
  /-- An initialize function has written the entry of `key`. -/
  | registered (key : Address)
  | administered (sender : Address) (call : AdminCall)
  deriving DecidableEq

structure World where
  storage : Storage
  balance : Nat
  events : List Event
  history : List Entry

/-- The wallet that is looked at. -/
structure Env where
  crypto : Crypto
  this : Address
  code : WalletCode

/-- A message call to the wallet. -/
structure Msg where
  sender : Address
  value : Uint256
  data : Bytes
  deriving DecidableEq

/-- Readings of `gasleft()`: at a first point, and the gas spent from there to a second one. -/
structure Gas where
  starting : Uint256
  spent : Uint256

def gasAfter (gas spent : Uint256) : Uint256 := if spent ≤ gas then gas - spent else 0

/-- The calls of `registerENS`, in order. -/
inductive EnsCall
  | register
  | setResolver
  | setAddr
  | owner
  | setName
  deriving DecidableEq

/-- A function of the wallet that waits for a call it has made. -/
inductive Frame
  /-- `executeSigned` waits for `to.call`. The storage in which it began is kept for reference. -/
  | executing (args : ExecuteArgs) (sender : Address) (startingGas gasleft : Uint256)
      (began : Storage)
  /-- `executeSigned` waits for the payment of the refund. -/
  | refunding (args : ExecuteArgs)
  /-- `initializeWithENS` waits in `registerENS`, perhaps on behalf of `initializeWithRefund`. -/
  | registering (ens : RegisterArgs) (call : EnsCall) (refund : Option RefundArgs)
  /-- `initializeWithRefund` waits for the payment of the relayer. -/
  | refundingDeployment

/-- A call to other code may find too little ether, and may find the wallet itself. -/
abbrev Yield := Reentrancy.Yield Frame Msg Bytes World

/-- What the initialize functions assign to the variables of `KeyHolder` and `ERC1077`. -/
def Storage.setFirstKey (s : Storage) (key : Address) : Storage :=
  { s with
    toKeyHolder := s.toKeyHolder.setFirstKey key
    requiredSignatures := 1 }

namespace World

def setFirstKey (w : World) (key : Address) : World :=
  { w with
    storage := w.storage.setFirstKey key
    events := w.events ++ [.keyAdded key managementKey]
    history := w.history ++ [.registered key] }

/-- The last statement of `onlyInitializing`. -/
def setInitialized (w : World) : World :=
  { w with storage := { w.storage with initialized := true } }

/-- The checks of `executeSigned` have passed and the nonce is bumped. -/
def setExecuted (w : World) (args : ExecuteArgs) : World :=
  { w with
    storage := { w.storage with lastNonce := w.storage.lastNonce + 1 }
    history := w.history ++ [.executed args] }

def setAdministered (w : World) (sender : Address) (c : AdminCall) (s : Storage)
    (events : List Event) : World :=
  { w with
    storage := s
    events := w.events ++ events
    history := w.history ++ [.administered sender c] }

def emit (w : World) (event : Event) : World := { w with events := w.events ++ [event] }

/-- The value of a call arrives; what the wallet sends itself is already there. -/
def receive (w : World) (this : Address) (msg : Msg) : World :=
  if msg.sender = this then w else { w with balance := w.balance + msg.value.toNat }

end World

section
variable (env : Env)

/-- A call to the contract at `to_`. -/
def callOut (w : World) (frame : Frame) (to_ : Address) (value : Uint256) (data : Bytes) : Yield :=
  if w.balance < value.toNat then .refused w frame
  else if to_ = env.this then .self w frame ⟨env.this, value, data⟩
  else .other w { w with balance := w.balance - value.toNat } frame

/-- `refund`: the payment of `gasUsed * gasPrice`, waited for in `frame`. -/
def refund (w : World) (frame : Frame) (gasUsed gasPrice : Uint256)
    (gasToken beneficiary : Address) :
    Yield :=
  match SafeMath.mul gasUsed gasPrice with
  | .error _ => .revert
  | .ok amount =>
    if gasToken ≠ 0 then callOut env w frame gasToken 0 (encodeTransfer beneficiary amount)
    else callOut env w frame beneficiary amount []

def executeSigned (sender : Address) (args : ExecuteArgs) (gas : Gas) (w : World) : Yield :=
  match ERC1077.executeSignedChecks env.crypto env.this args w.storage with
  | .error _ => .revert
  | .ok _ =>
    let gasleft := gasAfter gas.starting gas.spent
    match SafeMath.sub gasleft (BitVec.ofNat 256 (ERC1077.refundGas args.gasToken)) with
    | .error _ => .revert
    | .ok _ =>
      callOut env (w.setExecuted args) (.executing args sender gas.starting gasleft w.storage)
        args.to_ args.value args.data

def adrReverseNode : Bytes32 := 0x91d1777781884d03a6757a803996e38de2a42967fb37eeaca72729271025a9e2

def deploymentGasUsed : Uint256 := 500000

def calculateInitializeHash (hashLabel : Bytes32) (name : Bytes) (node : Bytes32)
    (gasPrice : Uint256) : Bytes32 :=
  env.crypto.keccak256 (packUint256 hashLabel ++ name ++ packUint256 node ++ packUint256 gasPrice)

/-- `WalletMasterWithRefund.getSigner` -/
def initializeSigner (ens : RegisterArgs) (refund : RefundArgs) : Address :=
  env.crypto.recover
    (env.crypto.toEthSignedMessageHash
      (calculateInitializeHash env ens.hashLabel ens.name ens.node refund.gasPrice))
    refund.signature

/-- `initialize` -/
def initializeKey (key : Address) (w : World) : Yield :=
  if w.storage.initialized then .revert else .done (w.setFirstKey key).setInitialized []

/-- `initializeWithENS` up to the first call of `registerENS`. -/
def initializeWithENS (key : Address) (ens : RegisterArgs) (refund : Option RefundArgs)
    (w : World) : Yield :=
  if w.storage.initialized then .revert
  else
    callOut env (w.setFirstKey key) (.registering ens .register refund) ens.registrar 0
      (encodeRegister ens.hashLabel env.this)

/-- The nested call `this.initializeWithENS` makes the same statements run: it does not read its
sender, and when it fails the outer call fails with it. -/
def initializeWithRefund (key : Address) (ens : RegisterArgs) (refund : RefundArgs) (w : World) :
    Yield :=
  if w.storage.initialized then .revert
  else if refund.signature.length ≠ 65 then .revert
  else if key ≠ initializeSigner env ens refund then .revert
  else initializeWithENS env key ens (some refund) w

/-- The wallet runs the function that the calldata selects. All functions but the fallback function
refuse ether. A proxy without a master does nothing. -/
def start (msg : Msg) (gas : Gas) (world : World) : Yield :=
  let w := world.receive env.this msg
  if env.code ≠ .erc1077 ∧ w.storage.masterAddress = 0 then .done w []
  else
    match dispatch env.code msg.data with
    | .fallback => .done w []
    | .malformed => .revert
    | call =>
      if msg.value ≠ 0 then .revert
      else
        match call with
        | .admin c =>
          match c.apply env.this msg.sender w.storage with
          | .error _ => .revert
          | .ok (s, events) => .done (w.setAdministered msg.sender c s events) []
        | .executeSigned args => executeSigned env msg.sender args gas w
        | .initializeKey key => initializeKey key w
        | .initializeWithENS key ens => initializeWithENS env key ens none w
        | .initializeWithRefund key ens refund => initializeWithRefund env key ens refund w
        | _ => .done w []

/-- `executeSigned` after `to.call`, which `success` tells the outcome of. -/
def resumeExecuting (args : ExecuteArgs) (sender : Address) (startingGas gasleft : Uint256)
    (success : Bool) (gas : Gas) (w : World) : Yield :=
  let messageHash := ERC1077.calculateMessageHash env.crypto env.this args.toMessage
  let w := w.emit (.executedSigned messageHash args.nonce success)
  match SafeMath.sub startingGas (gasAfter gasleft gas.spent) with
  | .error _ => .revert
  | .ok gasUsed => refund env w (.refunding args) gasUsed args.gasPrice args.gasToken sender

/-- `executeSigned` after the payment. A token has to return a word, which is not looked at. -/
def resumeRefunding (args : ExecuteArgs) (outcome : Option Bytes) (w : World) : Yield :=
  match outcome with
  | none => .revert
  | some data =>
    if args.gasToken ≠ 0 ∧ data.length < 32 then .revert
    else .done w (packUint256 (ERC1077.calculateMessageHash env.crypto env.this args.toMessage))

/-- `registerENS` after one of its calls, and what follows it. -/
def resumeRegistering (ens : RegisterArgs) (call : EnsCall) (r : Option RefundArgs)
    (outcome : Option Bytes) (w : World) : Yield :=
  match outcome with
  | none => .revert
  | some data =>
    match call with
    | .register =>
      callOut env w (.registering ens .setResolver r) ens.ens 0
        (encodeSetResolver ens.node ens.resolver)
    | .setResolver =>
      callOut env w (.registering ens .setAddr r) ens.resolver 0 (encodeSetAddr ens.node env.this)
    | .setAddr => callOut env w (.registering ens .owner r) ens.ens 0 (encodeOwner adrReverseNode)
    | .owner =>
      if data.length < 32 then .revert
      else
        callOut env w (.registering ens .setName r) ((wordAt data 0).setWidth 160) 0
          (encodeSetName ens.name)
    | .setName =>
      match r with
      | none => .done w.setInitialized []
      | some r =>
        refund env w.setInitialized .refundingDeployment deploymentGasUsed r.gasPrice 0 r.relayer

def resume (frame : Frame) (outcome : Option Bytes) (gas : Gas) (w : World) : Yield :=
  match frame with
  | .executing args sender startingGas gasleft _ =>
    resumeExecuting env args sender startingGas gasleft outcome.isSome gas w
  | .refunding args => resumeRefunding env args outcome w
  | .registering ens call r => resumeRegistering env ens call r outcome w
  | .refundingDeployment =>
    match outcome with
    | none => .revert
    | some _ => .done w.setInitialized []

/-- Other code calls the wallet under its own address, and ether can reach the wallet without a
call. -/
def wallet : Reentrancy.Contract Frame Msg Bytes World Gas Uint256 where
  admissible msg := msg.sender ≠ env.this
  start := start env
  resume := resume env
  perturb v w := { w with balance := w.balance + v.toNat }

end

abbrev Machine := Reentrancy.Machine Frame Msg Bytes World

abbrev Action := Reentrancy.Action Msg Bytes Gas Uint256

abbrev idle (w : World) : Machine := .idle w

abbrev step (env : Env) : Machine → Action → Option Machine := Reentrancy.step (wallet env)

abbrev run (env : Env) : Machine → List Action → Option Machine := Transition.run (step env)

/-! ## Deployment -/

/-- The storage that the constructor of `Proxy` leaves when its initialisation data make the master
do nothing. With other data, `setMaster` goes on to run them as a call; such a wallet is one whose
first call is that one. -/
def Proxy.constructor (master : Address) : Storage × List Event :=
  ({ Storage.blank with masterAddress := master }, [.masterChange 0 master])

/-- A wallet that has just been deployed, with the key its constructor was given if it has no
proxy. Ether may have been sent to its address before. -/
inductive Deployed (env : Env) : Option Address → World → Prop
  | erc1077 : env.code = .erc1077 →
    Deployed env (some key)
      ⟨(ERC1077.constructor key).1, balance, (ERC1077.constructor key).2, []⟩
  | proxy : env.code ≠ .erc1077 → master ≠ 0 →
    Deployed env none ⟨(Proxy.constructor master).1, balance, (Proxy.constructor master).2, []⟩

/-- The machines that some run leads to from a wallet that has just been deployed. -/
def Reachable (env : Env) (m : Machine) : Prop :=
  ∃ first w acts, Deployed env first w ∧ run env (idle w) acts = some m

/-- The wallet accepts no initialize function any more. -/
def Initialised (env : Env) (s : Storage) : Prop :=
  env.code = .erc1077 ∨ s.initialized = true

end UniversalLogin
