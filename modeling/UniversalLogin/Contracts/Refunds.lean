import UniversalLogin.Contracts.Provenance

/-!
# What an `executeSigned` refunds

An `executeSigned` that ends has made two calls, `to.call` and the payment of the refund, whatever
runs in between (`exists_refunding`). The payment goes to the sender and is of the gas between the
two readings of `gasleft()` at the signed price. The code looks neither at the signed `gasLimit` nor
at the word that a token answers, so that a refund keeps the bound that was signed for, and is paid,
exactly when the gas is free, or the gas that was burnt is below the limit and the token does not
answer `false` (`refund_paid_iff`).
-/

namespace UniversalLogin

open Reentrancy Transition

/-- A call that the wallet makes in order to pay. -/
structure Payment where
  to_ : Address
  value : Uint256
  data : Bytes

/-- The call that `refund` makes. -/
def refundPayment (gasToken beneficiary : Address) (amount : Uint256) : Payment :=
  if gasToken ≠ 0 then ⟨gasToken, 0, encodeTransfer beneficiary amount⟩
  else ⟨beneficiary, amount, []⟩

/-- The word that a call of `transfer` has answered is `true`. -/
def ReturnsTrue (answer : Bytes) : Prop := wordAt answer 0 ≠ 0

/-- The call, which has ended with `answer`, gives `payee` an amount of ether or of a token. What a
token answers to a transfer of nothing does not matter. -/
def Payment.Pays (p : Payment) (token payee : Address) (amount : Nat) (answer : Bytes) : Prop :=
  if token = 0 then p.to_ = payee ∧ p.value.toNat = amount
  else
    p.to_ = token ∧ (∃ x : Uint256, x.toNat = amount ∧ p.data = encodeTransfer payee x) ∧
      (amount = 0 ∨ ReturnsTrue answer)

def Payment.call (p : Payment) (env : Env) (w : World) (frame : Frame) : Yield :=
  callOut env w frame p.to_ p.value p.data

/-- The gas between two readings of `gasleft()`: what has been spent, of what there was. -/
def burnt (g₁ g₂ : Gas) : Nat := min g₁.starting.toNat (g₁.spent.toNat + g₂.spent.toNat)

section
variable {env : Env}

theorem refund_eq {w : World} (hamount : SafeMath.mul gasUsed gasPrice = .ok amount) :
    refund env w frame gasUsed gasPrice gasToken beneficiary =
      (refundPayment gasToken beneficiary amount).call env w frame := by
  simp only [refund, hamount, refundPayment, Payment.call]
  split <;> rfl

theorem toNat_gasAfter : (gasAfter gas spent).toNat = gas.toNat - spent.toNat := by
  rw [gasAfter]
  split <;> rename_i h <;> rw [BitVec.le_def] at h
  · exact BitVec.toNat_sub_of_le h
  · have hzero : (0 : Uint256).toNat = 0 := rfl
    omega

theorem toNat_gasUsed {g₁ g₂ : Gas}
    (h : SafeMath.sub g₁.starting (gasAfter (gasAfter g₁.starting g₁.spent) g₂.spent) = .ok used) :
    used.toNat = burnt g₁ g₂ := by
  rw [SafeMath.toNat_sub h, toNat_gasAfter, toNat_gasAfter, burnt]
  omega

/-- The payment is of the gas burnt at the signed price, to the sender. -/
theorem resume_executing {gasleft : Uint256} {success : Option Bytes}
    (hused : SafeMath.sub startingGas (gasAfter gasleft gas.spent) = .ok used)
    (hamount : SafeMath.mul used args.gasPrice = .ok amount) :
    resume env (.executing args sender startingGas gasleft began) success gas w =
      (refundPayment args.gasToken sender amount).call env
        (w.emit (.executedSigned (ERC1077.calculateMessageHash env.crypto env.this args.toMessage)
          args.nonce success.isSome)) (.refunding args) := by
  simp only [resume, resumeExecuting, hused]
  exact refund_eq hamount

/-- The run of an `executeSigned` that ends. `to.call` is made with the readings `g₁` and the refund
with the reading `g₂` after it; the wallet can afford the payment `p`, of `used` units of gas, whose
call ends with `answer`. -/
inductive Refunding (env : Env) (w : World) (msg : Msg) (args : ExecuteArgs) :
    List Action → Gas → Gas → Uint256 → Payment → Bytes → Prop
  | intro : run env ⟨w, [], .calling msg⟩ (.run g₁ :: before) =
      some ⟨w₁, [⟨some (executingFrame w msg args g₁), s₁⟩], .returning success⟩ →
    SafeMath.sub g₁.starting (gasAfter (gasAfter g₁.starting g₁.spent) g₂.spent) = .ok used →
    SafeMath.mul used args.gasPrice = .ok amount →
    refundPayment args.gasToken msg.sender amount = p →
    resume env (executingFrame w msg args g₁) success g₂ w₁ = p.call env w₂ (.refunding args) →
    p.value.toNat ≤ w₂.balance →
    run env ⟨w₁, [⟨some (executingFrame w msg args g₁), s₁⟩], .returning success⟩
      (.resume g₂ :: after) =
      some ⟨w₃, [⟨some (.refunding args), s₃⟩], .returning (some answer)⟩ →
    resume env (.refunding args) (some answer) g₃ w₃ = .done w' d →
    Refunding env w msg args (.run g₁ :: before ++ .resume g₂ :: after ++ [.resume g₃])
      g₁ g₂ used p answer

/-! ## Every run that ends refunds -/

theorem pending_of_enact_callOut {m' : Machine}
    (h : (callOut env w f to_ value data).enact ps w₀ = some m') :
    m'.pending = ⟨some f, w⟩ :: ps ∧ (m'.control = .returning none ∨ value.toNat ≤ w.balance) := by
  rw [callOut] at h
  split at h
  · cases h
    exact ⟨rfl, .inl rfl⟩
  · next hfunds =>
    split at h
    all_goals
      cases h
      exact ⟨rfl, .inr (Nat.not_lt.mp hfunds)⟩

/-- A call of `executeSigned` fails at once or makes the signed call. -/
theorem start_executing {w : World} (hcode : HasCode env w.storage)
    (hcall : dispatch env.code msg.data = .executeSigned args) :
    start env msg gas w = .revert ∨
      start env msg gas w =
        callOut env (w.setExecuted args) (executingFrame w msg args gas) args.to_
        args.value args.data := by
  by_cases hvalue : msg.value = 0
  · rw [start_eq hcode hvalue, hcall]
    simp only [executeSigned]
    split
    · exact .inl rfl
    split
    · exact .inl rfl
    · exact .inr rfl
  · have hcode' : ¬ (env.code ≠ .erc1077 ∧ (w.receive env.this msg).storage.masterAddress = 0) := by
      rw [HasCode] at hcode
      rw [storage_receive]
      tauto
    refine .inl ?_
    rw [start, if_neg hcode', hcall]
    exact if_pos hvalue

/-- After `to.call` the wallet fails or pays. -/
theorem resume_executing_cases (env : Env) {outcome : Option Bytes} :
    resume env (executingFrame w msg args g₁) outcome g₂ w₁ = .revert ∨
      ∃ used amount w₂,
        SafeMath.sub g₁.starting (gasAfter (gasAfter g₁.starting g₁.spent) g₂.spent) = .ok used ∧
        SafeMath.mul used args.gasPrice = .ok amount ∧
        resume env (executingFrame w msg args g₁) outcome g₂ w₁ =
          (refundPayment args.gasToken msg.sender amount).call env w₂ (.refunding args) := by
  cases hused : SafeMath.sub g₁.starting (gasAfter (gasAfter g₁.starting g₁.spent) g₂.spent) with
  | error _ => exact .inl (by simp only [resume, executingFrame, resumeExecuting, hused])
  | ok used =>
    cases hamount : SafeMath.mul used args.gasPrice with
    | error _ =>
      exact .inl (by simp only [resume, executingFrame, resumeExecuting, hused, refund, hamount])
    | ok amount => exact .inr ⟨used, amount, _, rfl, hamount, resume_executing hused hamount⟩

theorem callOut_ne_done {w : World} : callOut env w f to_ value data ≠ .done w' d := by
  intro h
  rw [callOut] at h
  split at h
  · cases h
  split at h <;> cases h

theorem resume_executing_ne_done {outcome : Option Bytes} :
    resume env (executingFrame w msg args g₁) outcome g₂ w₁ ≠ .done w' d := by
  intro hdone
  rcases resume_executing_cases env with h | ⟨_, _, _, _, _, h⟩ <;> rw [h] at hdone
  · cases hdone
  · exact callOut_ne_done hdone

/-- Nothing waits below the payment: when its call has ended, the wallet can only end. -/
theorem enact_resume_refunding :
    (resume env (.refunding args) outcome gas w).enact [] w₀ = none := by
  simp only [resume, resumeRefunding]
  split
  · rfl
  split <;> rfl

theorem wallet_start : (wallet env).start = start env := rfl

theorem wallet_resume : (wallet env).resume = resume env := rfl

theorem run_refunding {m : Machine} (hpending : m.pending = [⟨some (.refunding args), s⟩])
    (hcontrol : m.control = .returning o) (h : run env m acts = some m') : m' = m := by
  obtain ⟨w, _, _⟩ := m
  cases hpending
  cases hcontrol
  cases acts with
  | nil => exact (Option.some.inj h).symm
  | cons a acts =>
    obtain ⟨u, hstep, _⟩ := run_cons.mp h
    cases Step.of_step hstep with
    | resume hy =>
      rw [wallet_resume, enact_resume_refunding] at hy
      cases hy
    | failResume hf => cases hf

/-- An `executeSigned` that ends has paid for the gas. -/
theorem exists_refunding (hcode : HasCode env w.storage)
    (hcall : dispatch env.code msg.data = .executeSigned args)
    (hends : Ends (wallet env) msg w acts d w') :
    ∃ g₁ g₂ used p answer, Refunding env w msg args acts g₁ g₂ used p answer := by
  cases hends with
  | start hdone =>
    rw [wallet_start] at hdone
    rcases start_executing hcode hcall with h | h <;> rw [h] at hdone
    · cases hdone
    · exact absurd hdone callOut_ne_done
  | @resume acts w₃ f s o g₃ _ _ hrun hdone =>
    cases acts with
    | nil => cases hrun
    | cons a acts =>
      obtain ⟨m₀, hstep, hrest⟩ := run_cons.mp hrun
      cases Step.of_step hstep with
      | failRun hf => cases hf
      | @run _ g₁ _ _ _ hy =>
        rw [wallet_start] at hy
        rcases start_executing hcode hcall with h | h <;> rw [h] at hy
        · cases hy
        have hexecuting : [⟨some (executingFrame w msg args g₁), w.setExecuted args⟩] <:+ m₀.pending :=
          (pending_of_enact_callOut hy).1 ▸ List.suffix_refl _
        -- The call of the target is over: otherwise its frame would be the one that ends.
        rcases run_lowest hrest hexecuting with hkept | hcut
        · cases hkept.eq_of_length rfl
          exact absurd hdone (resume_executing_ne_done (w := w))
        obtain ⟨before, w₁, success, g₂, m₁, after, rfl, hbefore, hpay, hafter⟩ := hcut
        rw [wallet_resume] at hpay
        rcases resume_executing_cases env with h | ⟨used, amount, w₂, hused, hamount, h⟩
        · rw [h] at hpay
          cases hpay
        have hpay' := hpay
        rw [h] at hpay'
        obtain ⟨hpending, hfunds⟩ := pending_of_enact_callOut hpay'
        have hrefunding : [⟨some (.refunding args), w₂⟩] <:+ m₁.pending :=
          hpending ▸ List.suffix_refl _
        rcases run_lowest hafter hrefunding with hkept | hcut
        · cases hkept.eq_of_length rfl
          rw [wallet_resume] at hdone
          obtain _ | answer := o
          · cases hdone
          have hmade : m₁.control ≠ .returning none := fun hrefused => by
            rw [← run_refunding hpending hrefused hafter] at hrefused
            cases hrefused
          exact ⟨g₁, g₂, used, _, answer, .intro (run_cons.mpr ⟨m₀, hstep, hbefore⟩) hused hamount rfl h
            (hfunds.resolve_left hmade) (run_cons.mpr ⟨m₁, hpay, hafter⟩) hdone⟩
        · obtain ⟨_, _, _, _, _, _, _, _, hnone, _⟩ := hcut
          rw [wallet_resume, enact_resume_refunding] at hnone
          cases hnone

namespace Refunding

/-- A refund in ether is paid; one in a token is paid if nothing is owed or the token says so. -/
theorem pays_iff (h : Refunding env w msg args acts g₁ g₂ used p answer) :
    p.Pays args.gasToken msg.sender (used.toNat * args.gasPrice.toNat) answer ↔
      args.gasPrice = 0 ∨ args.gasToken = 0 ∨ burnt g₁ g₂ = 0 ∨ ReturnsTrue answer := by
  obtain ⟨_, hused, hamount, rfl, _, _, _, _⟩ := h
  have hamount := SafeMath.toNat_mul hamount
  rw [← toNat_gasUsed hused]
  by_cases htoken : args.gasToken = 0
  · simp [Payment.Pays, refundPayment, htoken, hamount]
  · have hnothing : used.toNat * args.gasPrice.toNat = 0 ↔ args.gasPrice = 0 ∨ used.toNat = 0 := by
      rw [Nat.mul_eq_zero, or_comm, ← BitVec.toNat_inj]
      rfl
    simp only [Payment.Pays, refundPayment, if_pos htoken, htoken, false_or, if_false, true_and,
      hnothing, or_assoc]
    exact ⟨fun hpays => hpays.2, fun htrue => ⟨⟨_, hamount, rfl⟩, htrue⟩⟩

/-- The bound that was signed for is one on the gas. -/
theorem bounded_iff (h : Refunding env w msg args acts g₁ g₂ used p answer) :
    used.toNat * args.gasPrice.toNat ≤ args.gasLimit.toNat * args.gasPrice.toNat ↔
      args.gasPrice = 0 ∨ burnt g₁ g₂ ≤ args.gasLimit.toNat := by
  obtain ⟨_, hused, _, _, _, _, _, _⟩ := h
  rw [toNat_gasUsed hused]
  by_cases hprice : args.gasPrice = 0
  · simp [hprice]
  · have hpos : 0 < args.gasPrice.toNat :=
      Nat.pos_of_ne_zero fun hzero => hprice (BitVec.eq_of_toNat_eq hzero)
    rw [Nat.mul_le_mul_right_iff hpos, or_iff_right hprice]

end Refunding

/-- An `executeSigned` that does not revert refunds the gas it has used. The sender has been paid,
and not more than the limit that was signed, exactly when the gas is free or the gas burnt is at
most that limit and the token (if it is one, and anything is owed) has returned true. -/
theorem refund_paid_iff (hcode : HasCode env w.storage)
    (hcall : dispatch env.code msg.data = .executeSigned args)
    (hends : Ends (wallet env) msg w acts d w') :
    (∃ g₁ g₂ used p answer, Refunding env w msg args acts g₁ g₂ used p answer) ∧
    ∀ g₁ g₂ used p answer, Refunding env w msg args acts g₁ g₂ used p answer →
      (p.Pays args.gasToken msg.sender (used.toNat * args.gasPrice.toNat) answer ∧
          used.toNat * args.gasPrice.toNat ≤ args.gasLimit.toNat * args.gasPrice.toNat ↔
        args.gasPrice = 0 ∨
          (args.gasToken = 0 ∨ burnt g₁ g₂ = 0 ∨ ReturnsTrue answer) ∧
            burnt g₁ g₂ ≤ args.gasLimit.toNat) := by
  refine ⟨exists_refunding hcode hcall hends, fun g₁ g₂ used p answer h => ?_⟩
  rw [h.pays_iff, h.bounded_iff, or_and_left]

end

/-! ## A message that burns gas

A message that calls a contract of somebody else, which runs until its gas is burnt and then fails.
-/

namespace Sample

def burner : Address := 0x00000000000000000000000000000000000000b1

def burnMessage : Message := { message with to_ := burner, data := [] }

def emptyHash : Bytes32 := 0xc5d2460186f7233c927e7db2dcc703c0e500b653ca82273b7bfad8045d85a470
def burnHash : Bytes32 := 0xe029bf8f9adc95dc7dc6a34f51f3291e81fca8ab07818a8e8b0870839dd7095a
def signedBurnHash : Bytes32 := 0x8652729e77d20c10fd44cd96307880c1377a56704774db5a488b737e936916d6

def burnPacked : Bytes :=
  packAddress wallet ++ packAddress burner ++ packUint256 0 ++ packUint256 emptyHash ++
    packUint256 0 ++ packUint256 1 ++ packAddress 0 ++ packUint256 1000000 ++ packUint256 0

def burnSignature : Signature where
  r := 0xd5c6a5873e0af039f263031a7b7f8295c8cc3fd97ed796446d1c4a2d799182ca
  s := 0x30c1673b0f8ce47655f1ab06c40aa5bf6c4ccd817944fcf5574a3daa305c5509

def burnCrypto : Crypto where
  keccak256 bs := if bs = [] then emptyHash else if bs = burnPacked then burnHash else 0
  toEthSignedMessageHash h := if h = burnHash then signedBurnHash else 0
  ecrecover h v r s :=
    if h = signedBurnHash ∧ v = 27 ∧ r = burnSignature.r ∧ s = burnSignature.s then actor else 0
  recover _ _ := 0

def burnEnv : Env := { env with crypto := burnCrypto }

def burnArgs : ExecuteArgs := { burnMessage with signatures := burnSignature.bytes }

def executeBurn : Msg := ⟨relayer, 0, encodeExecuteSigned burnArgs⟩

set_option maxRecDepth 20000 in
theorem dispatch_executeBurn :
    dispatch burnEnv.code executeBurn.data = .executeSigned burnArgs := by
  decide

set_option maxRecDepth 20000 in
theorem burn_checks :
    ERC1077.executeSignedChecks burnCrypto wallet burnArgs keyed.storage = .ok () := by
  refine ERC1077.executeSignedChecks_eq_ok.mpr ⟨?_, ?_, ?_, ?_⟩ <;> decide

/-- The steps of the message: the contract fails and the relayer is paid. -/
def burning (g₁ g₂ g₃ : Gas) : List Action :=
  [.run g₁, .ret none, .resume g₂, .ret (some []), .resume g₃]

variable {g₁ g₂ : Gas} {amount : Uint256}

theorem start_executeBurn (hr : Refunded keyed burnArgs g₁ g₂ amount) :
    start burnEnv executeBurn g₁ keyed =
      .other (keyed.setExecuted burnArgs) { keyed.setExecuted burnArgs with balance := 10 ^ 18 }
        (executingFrame keyed executeBurn burnArgs g₁) := by
  obtain ⟨_, hallowance⟩ := hr.allowance
  have hchecks : ERC1077.executeSignedChecks burnEnv.crypto burnEnv.this burnArgs keyed.storage =
      .ok () := burn_checks
  rw [start_eq (.inl rfl) rfl, dispatch_executeBurn]
  simp only [executeSigned, hchecks, hallowance]
  rfl

/-- The message is carried out and its gas is paid for. -/
theorem refunding_burnt (g₃ : Gas) (hr : Refunded keyed burnArgs g₁ g₂ amount) :
    (∃ d w', Ends (UniversalLogin.wallet burnEnv) executeBurn keyed (burning g₁ g₂ g₃) d w') ∧
      ∃ used p,
        Refunding burnEnv keyed executeBurn burnArgs (burning g₁ g₂ g₃) g₁ g₂ used p [] := by
  obtain ⟨used, hused, hamount⟩ := hr.charged
  let after := (keyed.setExecuted burnArgs).emit
    (.executedSigned (ERC1077.calculateMessageHash burnCrypto wallet burnMessage) 0 false)
  let calling : Machine := ⟨keyed.setExecuted burnArgs,
    [⟨some (executingFrame keyed executeBurn burnArgs g₁), keyed.setExecuted burnArgs⟩],
    .returning none⟩
  let paying : Machine := ⟨{ after with balance := after.balance - amount.toNat },
    [⟨some (.refunding burnArgs), after⟩], .returning (some [])⟩
  have hpay : resume burnEnv (executingFrame keyed executeBurn burnArgs g₁) none g₂
      (keyed.setExecuted burnArgs) =
      (refundPayment 0 relayer amount).call burnEnv after (.refunding burnArgs) :=
    resume_executing hused hamount
  have hcall : (refundPayment 0 relayer amount).call burnEnv after (.refunding burnArgs) =
      .other after { after with balance := after.balance - amount.toNat } (.refunding burnArgs) :=
    if_neg (Nat.not_lt.mpr hr.balance)
  have hcalling : run burnEnv ⟨keyed, [], .calling executeBurn⟩ [.run g₁, .ret none] =
      some calling :=
    run_cons.mpr ⟨_, step_run (start_executeBurn hr), rfl⟩
  have hpaying : run burnEnv calling [.resume g₂, .ret (some [])] = some paying :=
    run_cons.mpr ⟨_, step_resume (hpay.trans hcall), rfl⟩
  have hdone : resume burnEnv (.refunding burnArgs) (some []) g₃ paying.world = .done paying.world
      (packUint256 (ERC1077.calculateMessageHash burnCrypto wallet burnMessage)) := rfl
  refine ⟨⟨_, _, .resume (run_append.mpr ⟨calling, hcalling, hpaying⟩) hdone⟩, used,
    refundPayment 0 relayer amount, ?_⟩
  exact .intro hcalling hused hamount rfl hpay hr.balance hpaying hdone

theorem refunded_burn : Refunded keyed burnArgs gas gas 40000 where
  allowance := ⟨866000, by decide⟩
  charged := ⟨40000, by decide⟩
  balance := by decide

/-- The readings of a transaction that supplies 3200000 gas. -/
def ample : Gas := ⟨3158376, 155⟩

/-- The contract leaves 46776 of it. -/
def ampleAfter : Gas := ⟨46776, 3111445⟩

theorem refunded_ample : Refunded keyed burnArgs ample ampleAfter 3111600 where
  allowance := ⟨3144221, by decide⟩
  charged := ⟨3111600, by decide⟩
  balance := by decide

end Sample

theorem refund_paid_iff_sample :
    ∃ used p, Refunding Sample.burnEnv Sample.keyed Sample.executeBurn Sample.burnArgs
        (Sample.burning Sample.gas Sample.gas Sample.gas) Sample.gas Sample.gas used p [] ∧
      p.Pays 0 Sample.relayer (used.toNat * 1) [] ∧ used.toNat * 1 ≤ 1000000 * 1 := by
  obtain ⟨⟨d, w', hends⟩, used, p, hrefunding⟩ :=
    Sample.refunding_burnt Sample.gas Sample.refunded_burn
  obtain ⟨_, hpaid⟩ := refund_paid_iff (.inl rfl) Sample.dispatch_executeBurn hends
  exact ⟨used, p, hrefunding,
    (hpaid _ _ _ _ _ hrefunding).mpr (.inr ⟨.inl rfl, by decide⟩)⟩

/-- The relayer burns three times the gas that the signer of the message allows, and is paid. -/
theorem refund_above_limit :
    ¬ ∀ acts d w', Ends (wallet Sample.burnEnv) Sample.executeBurn Sample.keyed acts d w' →
      ∀ g₁ g₂ used p answer,
        Refunding Sample.burnEnv Sample.keyed Sample.executeBurn Sample.burnArgs acts g₁ g₂ used p
          answer →
        p.Pays Sample.burnArgs.gasToken Sample.executeBurn.sender
            (used.toNat * Sample.burnArgs.gasPrice.toNat) answer ∧
          used.toNat * Sample.burnArgs.gasPrice.toNat ≤
            Sample.burnArgs.gasLimit.toNat * Sample.burnArgs.gasPrice.toNat := by
  intro hbounded
  obtain ⟨⟨d, w', hends⟩, used, p, hrefunding⟩ :=
    Sample.refunding_burnt Sample.gas Sample.refunded_ample
  obtain ⟨_, hlimit⟩ := hbounded _ _ _ hends _ _ _ _ _ hrefunding
  rcases hrefunding.bounded_iff.mp hlimit with hprice | hburnt
  · exact absurd hprice (by decide)
  · exact absurd hburnt (by decide)

end UniversalLogin
