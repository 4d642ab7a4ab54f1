import UniversalLogin.Relayer.MessageExecutor

/-!
# Validations

`ensureEnoughToken` compares the balance of the wallet with the gas limit of a message
(`runs_ensureEnoughToken_iff`), while the wallet is charged for gas at the price of the message. The
check is enough where the balance does not lie between the two, and so for every balance if the
price is at most 1.
-/

namespace UniversalLogin

open Async

/-! ## The chain -/

/-- What a provider reads of the chain. A contract need not have the function `balanceOf`. -/
structure ChainState where
  getCode : JsString → Bytes
  getBalance : JsString → Uint256
  balanceOf : JsString → JsString → Option Uint256

namespace ChainState

variable (chain : ChainState)

/-- What is read is read of this state. -/
def Reads : (q : Query) → Except JsError q.Answer → Prop
  | .getCode address, .ok code => code = chain.getCode address
  | .getBalance address, .ok balance => balance = chain.getBalance address
  | .balanceOf token address, .ok balance => chain.balanceOf token address = some balance
  | _, _ => True

def Answers (wallets : Address → Option Storage) (q : Query) (db : Database)
    (r : Except JsError q.Answer) (db' : Database) : Prop :=
  q.Answers wallets db r db' ∧ chain.Reads q r

/-- The balance of a wallet in a token, where the token is ether or a contract. -/
def balanceIn (gasToken walletAddress : JsString) : Option Uint256 :=
  if gasToken = etherNativeToken then some (chain.getBalance walletAddress)
  else if chain.getCode gasToken = [] then none
  else chain.balanceOf gasToken walletAddress

end ChainState

variable {wallets : Address → Option Storage} {chain : ChainState}

theorem runs_getCode_iff {code : (Query.getCode address).Answer} :
    Runs (chain.Answers wallets) (db, query (.getCode address)) (db', .done (.ok code)) ↔
      db' = db ∧ code = chain.getCode address := runs_perform_iff

theorem runs_getBalance_iff {balance : (Query.getBalance address).Answer} :
    Runs (chain.Answers wallets) (db, query (.getBalance address)) (db', .done (.ok balance)) ↔
      db' = db ∧ balance = chain.getBalance address := runs_perform_iff

theorem runs_balanceOf_iff {balance : (Query.balanceOf token address).Answer} :
    Runs (chain.Answers wallets) (db, query (.balanceOf token address))
      (db', .done (.ok balance)) ↔
      db' = db ∧ chain.balanceOf token address = some balance := runs_perform_iff

theorem runs_lift_iff {x : Except String α} {v : α} :
    Runs (chain.Answers wallets) (db, Promise.lift x) (db', .done (.ok v)) ↔
      db' = db ∧ x = .ok v := by
  rw [Promise.lift, runs_done_iff, eq_comm]
  cases x <;> simp [Except.mapError]

theorem runs_ensure_iff {condition : Prop} [Decidable condition] {u : Unit} :
    Runs (chain.Answers wallets) (db, ensure condition e) (db', .done (.ok u)) ↔
      db' = db ∧ condition := by
  rw [ensure]
  split
  · next h =>
    change Runs _ (db, .done (.ok ())) _ ↔ _
    rw [runs_done_iff]
    simp [h, eq_comm]
  · next h =>
    rw [runs_done_iff]
    simp [h]

theorem runs_pure_iff {v w : α} : Runs (chain.Answers wallets) (db, (pure v : Promise α))
    (db', .done (.ok w)) ↔ db' = db ∧ v = w := by
  change Runs _ (db, .done (.ok v)) _ ↔ _
  rw [runs_done_iff]
  simp [eq_comm]

theorem runs_isContract_iff : Runs (chain.Answers wallets) (db, isContract contractAddress)
    (db', .done (.ok found)) ↔
      db' = db ∧ found = decide (chain.getCode contractAddress ≠ []) := by
  simp only [isContract, runs_bind_iff, runs_pure_iff]
  constructor
  · rintro ⟨code, _, hcode, rfl, rfl⟩
    obtain ⟨rfl, rfl⟩ := runs_getCode_iff.mp hcode
    exact ⟨rfl, rfl⟩
  · rintro ⟨rfl, rfl⟩
    exact ⟨_, _, runs_getCode_iff.mpr ⟨rfl, rfl⟩, rfl, rfl⟩

theorem runs_hasEnoughToken_iff : Runs (chain.Answers wallets)
    (db, hasEnoughToken gasToken walletAddress gasLimit) (db', .done (.ok enough)) ↔
      db' = db ∧ ∃ limit balance, bigNumberify gasLimit = .ok limit ∧
        chain.balanceIn gasToken walletAddress = some balance ∧
        enough = decide (limit ≤ balance.toNat) := by
  rw [hasEnoughToken, ChainState.balanceIn]
  split
  · simp only [runs_bind_iff, runs_lift_iff, runs_pure_iff]
    constructor
    · rintro ⟨balance, _, hbalance, limit, _, ⟨rfl, hlimit⟩, rfl, rfl⟩
      obtain ⟨rfl, rfl⟩ := runs_getBalance_iff.mp hbalance
      exact ⟨rfl, limit, _, hlimit, rfl, rfl⟩
    · rintro ⟨rfl, limit, balance, hlimit, hbalance, rfl⟩
      cases hbalance
      exact ⟨_, _, runs_getBalance_iff.mpr ⟨rfl, rfl⟩, limit, _, ⟨rfl, hlimit⟩, rfl, rfl⟩
  · simp only [runs_bind_iff, runs_isContract_iff, runs_ensure_iff, runs_lift_iff, runs_pure_iff]
    constructor
    · rintro ⟨_, _, ⟨rfl, rfl⟩, _, _, ⟨rfl, hcode⟩, balance, _, hbalance, limit, _,
        ⟨rfl, hlimit⟩, rfl, rfl⟩
      obtain ⟨rfl, hbalance⟩ := runs_balanceOf_iff.mp hbalance
      refine ⟨rfl, limit, balance, hlimit, ?_, rfl⟩
      rwa [if_neg (of_decide_eq_true hcode)]
    · rintro ⟨rfl, limit, balance, hlimit, hbalance, rfl⟩
      obtain ⟨hcode, hbalance⟩ := Option.ite_none_left_eq_some.mp hbalance
      exact ⟨_, _, ⟨rfl, rfl⟩, (), _, ⟨rfl, decide_eq_true hcode⟩, balance, _,
        runs_balanceOf_iff.mpr ⟨rfl, hbalance⟩, limit, _, ⟨rfl, hlimit⟩, rfl, rfl⟩

/-- The balance is compared with the gas limit. -/
theorem runs_ensureEnoughToken_iff {message : SignedMessage} :
    Runs (chain.Answers wallets) (db, ensureEnoughToken message) (db', .done (.ok ())) ↔
      db' = db ∧ ∃ gasLimit balance, bigNumberify message.gasLimit = .ok gasLimit ∧
        chain.balanceIn message.gasToken message.from_ = some balance ∧
        gasLimit ≤ balance.toNat := by
  simp only [ensureEnoughToken, runs_bind_iff, runs_hasEnoughToken_iff, runs_ensure_iff]
  constructor
  · rintro ⟨_, _, ⟨rfl, gasLimit, balance, hlimit, hbalance, rfl⟩, rfl, henough⟩
    exact ⟨rfl, gasLimit, balance, hlimit, hbalance, of_decide_eq_true henough⟩
  · rintro ⟨rfl, gasLimit, balance, hlimit, hbalance, henough⟩
    exact ⟨_, _, ⟨rfl, gasLimit, balance, hlimit, hbalance, rfl⟩, rfl, decide_eq_true henough⟩

/-! ## The refund -/

/-- The check passes in this state of the chain. -/
def ChainState.Passes (chain : ChainState) (wallets : Address → Option Storage)
    (message : SignedMessage) : Prop :=
  ∃ db db', Runs (chain.Answers wallets) (db, ensureEnoughToken message) (db', .done (.ok ()))

/-- The wallet has the price of the gas limit in the token of the message. -/
def ChainState.Covers (chain : ChainState) (message : SignedMessage) : Prop :=
  ∃ gasLimit gasPrice balance, bigNumberify message.gasLimit = .ok gasLimit ∧
    bigNumberify message.gasPrice = .ok gasPrice ∧
    chain.balanceIn message.gasToken message.from_ = some balance ∧
    gasLimit * gasPrice ≤ balance.toNat

theorem passes_iff {message : SignedMessage}
    (hlimit : bigNumberify message.gasLimit = .ok gasLimit) :
    chain.Passes wallets message ↔ ∃ balance,
      chain.balanceIn message.gasToken message.from_ = some balance ∧
        gasLimit ≤ balance.toNat := by
  simp only [ChainState.Passes, runs_ensureEnoughToken_iff, hlimit, Except.ok.injEq]
  constructor
  · rintro ⟨_, _, _, _, balance, rfl, h⟩
    exact ⟨balance, h⟩
  · rintro ⟨balance, h⟩
    exact ⟨.empty, .empty, rfl, _, balance, rfl, h⟩

theorem covers_iff {message : SignedMessage}
    (hlimit : bigNumberify message.gasLimit = .ok gasLimit)
    (hprice : bigNumberify message.gasPrice = .ok gasPrice) :
    chain.Covers message ↔ ∃ balance,
      chain.balanceIn message.gasToken message.from_ = some balance ∧
        gasLimit * gasPrice ≤ balance.toNat := by
  simp only [ChainState.Covers, hlimit, hprice, Except.ok.injEq, exists_and_left, exists_eq_left']

/-- A chain where every wallet has the same balance in every token. -/
def ChainState.uniform (balance : Uint256) : ChainState where
  getCode _ := [0]
  getBalance _ := balance
  balanceOf _ _ := some balance

theorem balanceIn_uniform :
    (ChainState.uniform balance).balanceIn token address = some balance := by
  simp [ChainState.balanceIn, ChainState.uniform]

/-- A message that passes can pay the price of its gas limit whatever the chain is if that price is
at most the gas limit itself, or no balance reaches the limit. On a given chain it can unless the
balance is at least the gas limit and less than its price. -/
theorem ensureEnoughToken_covers_iff {message : SignedMessage}
    (hlimit : bigNumberify message.gasLimit = .ok gasLimit)
    (hprice : bigNumberify message.gasPrice = .ok gasPrice) :
    ((∀ chain : ChainState, chain.Passes wallets message → chain.Covers message) ↔
      gasLimit * gasPrice ≤ max gasLimit 0 ∨ 2 ^ 256 ≤ gasLimit) ∧
    ∀ chain : ChainState, (chain.Passes wallets message → chain.Covers message) ↔
      ∀ balance ∈ chain.balanceIn message.gasToken message.from_,
        balance.toNat < gasLimit ∨ gasLimit * gasPrice ≤ balance.toNat := by
  simp only [passes_iff hlimit, covers_iff hlimit hprice]
  constructor
  · constructor
    · intro h
      refine or_iff_not_imp_right.mpr fun hreached => ?_
      have hbalance : ((BitVec.ofNat 256 gasLimit.toNat).toNat : Int) = max gasLimit 0 := by
        rw [BitVec.toNat_ofNat, Nat.mod_eq_of_lt (by omega), Int.toNat_eq_max]
      have hcovers := h (.uniform (BitVec.ofNat 256 gasLimit.toNat))
      simp only [balanceIn_uniform, Option.some.injEq, exists_eq_left', hbalance] at hcovers
      exact hcovers (le_max_left _ _)
    · rintro h chain ⟨balance, hbalance, hle⟩
      have hlt := balance.isLt
      exact ⟨balance, hbalance, by omega⟩
  · intro chain
    cases chain.balanceIn message.gasToken message.from_ with
    | none => simp
    | some balance =>
      simp only [Option.some.injEq, exists_eq_left', Option.mem_def, forall_eq']
      omega

namespace Sample

/-- The sample message at a gas price, not signed. -/
def priced (gasPrice : Int) : SignedMessage :=
  { unsigned with gasPrice := .bigNumber gasPrice, signature := hexlify [] }

theorem gasLimit_priced : bigNumberify (priced gasPrice).gasLimit = .ok 1000000 :=
  show bigNumberify unsigned.gasLimit = .ok 1000000 by decide

theorem passes_priced (wallets : Address → Option Storage) :
    (ChainState.uniform 1000000).Passes wallets (priced gasPrice) :=
  (passes_iff gasLimit_priced).mpr ⟨1000000, balanceIn_uniform, by decide⟩

end Sample

theorem ensureEnoughToken_covers_sample :
    (ChainState.uniform 1000000).Covers (Sample.priced 1) :=
  (ensureEnoughToken_covers_iff Sample.gasLimit_priced rfl).1.mpr
    (.inl (by decide)) _ (Sample.passes_priced fun _ => none)

/-- A wallet that has as much as the gas limit passes at the price 2, and has half of what it may
be charged. -/
theorem ensureEnoughToken_at_price_two :
    (ChainState.uniform 1000000).Passes (fun _ => none) (Sample.priced 2) ∧
      ¬ (ChainState.uniform 1000000).Covers (Sample.priced 2) := by
  refine ⟨Sample.passes_priced _, fun hcovers => ?_⟩
  obtain ⟨balance, hbalance, hle⟩ := (covers_iff Sample.gasLimit_priced rfl).mp hcovers
  rw [balanceIn_uniform] at hbalance
  cases hbalance
  revert hle
  decide

end UniversalLogin
