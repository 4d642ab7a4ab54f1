import UniversalLogin.Commons.Messages
import UniversalLogin.Lib.Async

/-!
# Balances

The search for a token of which an address has enough (`balance.ts`). The tokens are read one after
another, and the first one whose balance is at least the configured amount is returned.
-/

namespace UniversalLogin

open Async

def etherNativeToken : JsString := hexlify (packAddress 0)

structure SupportedToken where
  address : JsString
  minimalAmount : JsString
  deriving DecidableEq

/-- What is asked of a provider, or of the contract of a token. -/
inductive BalanceQuery
  | getBalance (address : JsString)
  | balanceOf (token address : JsString)
  deriving DecidableEq

abbrev BalancePromise := Async BalanceQuery (fun _ => Uint256) String

def getBalance (contractAddress tokenAddress : JsString) : BalancePromise Uint256 :=
  if tokenAddress = etherNativeToken then .perform (.getBalance contractAddress)
  else .perform (.balanceOf tokenAddress contractAddress)

def findTokenWithRequiredBalance :
    List SupportedToken → JsString → BalancePromise (Option JsString)
  | [], _ => pure none
  | token :: supportedTokens, contractAddress => do
    let balance ← getBalance contractAddress token.address
    let minimalAmount ← .done (bigNumberify (.string token.minimalAmount))
    if minimalAmount ≤ balance.toNat then return some token.address
    else findTokenWithRequiredBalance supportedTokens contractAddress

/-! ## What is found -/

namespace SupportedToken

/-- The query that reads the balance of an address in a token. -/
def query (contractAddress : JsString) (token : SupportedToken) : BalanceQuery :=
  if token.address = etherNativeToken then .getBalance contractAddress
  else .balanceOf token.address contractAddress

theorem getBalance_eq (contractAddress : JsString) (token : SupportedToken) :
    getBalance contractAddress token.address = .perform (token.query contractAddress) := by
  rw [getBalance, query]
  split <;> rfl

variable (answer : BalanceQuery → Except String Uint256) (contractAddress : JsString)

/-- The balance that is read is at least the configured amount. -/
def Suffices (token : SupportedToken) : Prop :=
  ∃ balance amount, answer (token.query contractAddress) = .ok balance ∧
    bigNumberify (.string token.minimalAmount) = .ok amount ∧ amount ≤ balance.toNat

def FallsShort (token : SupportedToken) : Prop :=
  ∃ balance amount, answer (token.query contractAddress) = .ok balance ∧
    bigNumberify (.string token.minimalAmount) = .ok amount ∧ balance.toNat < amount

end SupportedToken

/-- The token that is found is the first one that suffices. -/
theorem eval_findTokenWithRequiredBalance_iff {answer : BalanceQuery → Except String Uint256}
    {supportedTokens : List SupportedToken} :
    (findTokenWithRequiredBalance supportedTokens contractAddress).eval answer =
        .ok (some address) ↔
      ∃ before token after, supportedTokens = before ++ token :: after ∧
        (∀ t ∈ before, t.FallsShort answer contractAddress) ∧
        token.Suffices answer contractAddress ∧ token.address = address := by
  induction supportedTokens with
  | nil => simp [findTokenWithRequiredBalance, eval, pure]
  | cons token tokens ih =>
    have hread : (findTokenWithRequiredBalance (token :: tokens) contractAddress).eval answer =
        answer (token.query contractAddress) >>= fun balance =>
          bigNumberify (.string token.minimalAmount) >>= fun amount =>
            if amount ≤ balance.toNat then .ok (some token.address)
            else (findTokenWithRequiredBalance tokens contractAddress).eval answer := by
      rw [findTokenWithRequiredBalance, SupportedToken.getBalance_eq, eval_bind]
      refine congrArg _ (funext fun balance => ?_)
      rw [eval_bind]
      refine congrArg _ (funext fun amount => ?_)
      split <;> rfl
    rw [hread]
    simp only [except_bind_eq_ok]
    constructor
    · rintro ⟨balance, hbalance, amount, hamount, h⟩
      split at h
      · next hle =>
        cases h
        exact ⟨[], token, tokens, rfl, by simp, ⟨balance, amount, hbalance, hamount, hle⟩, rfl⟩
      · next hlt =>
        obtain ⟨before, found, after, rfl, hbefore, hfound, haddress⟩ := ih.mp h
        exact ⟨token :: before, found, after, rfl, List.forall_mem_cons.mpr
          ⟨⟨balance, amount, hbalance, hamount, by omega⟩, hbefore⟩, hfound, haddress⟩
    · rintro ⟨before, found, after, heq, hbefore, hfound, rfl⟩
      cases before with
      | nil =>
        obtain ⟨rfl, rfl⟩ := List.cons.inj heq
        obtain ⟨balance, amount, hbalance, hamount, hle⟩ := hfound
        exact ⟨balance, hbalance, amount, hamount, if_pos hle⟩
      | cons t before =>
        obtain ⟨rfl, rfl⟩ := List.cons.inj heq
        obtain ⟨⟨balance, amount, hbalance, hamount, hlt⟩, hbefore⟩ :=
          List.forall_mem_cons.mp hbefore
        refine ⟨balance, hbalance, amount, hamount, ?_⟩
        rw [if_neg (by omega)]
        exact ih.mpr ⟨before, found, after, rfl, hbefore, hfound, rfl⟩

end UniversalLogin
