import UniversalLogin.Contracts.ExecutionEvents
import UniversalLogin.Contracts.Refunds

/-!
# What a wallet spends

Ether leaves an initialised wallet in two ways, the signed call of `executeSigned` and its refund.
An execution whose inner call has not ended yet may still be refunded, so an invariant of runs sets
aside what the waiting executions may cost (`Spends`). With it, a run costs a wallet at most the
values and the gas that were signed for in it, if no execution burns more gas than its message
allows; and a run that leaves no execution behind costs nothing (`ether_spent_le`).
-/

namespace UniversalLogin

open Reentrancy Transition

/-! ## What is signed for -/

/-- The ether that a refund costs if an execution burns so much gas. -/
def ExecuteArgs.refundOf (args : ExecuteArgs) (burnt : Nat) : Nat :=
  if args.gasToken = 0 then burnt * args.gasPrice.toNat else 0

section
variable (limit : ExecuteArgs → Nat)

/-- The ether that an execution costs if it burns as much gas as it may. -/
def ExecuteArgs.cost (args : ExecuteArgs) : Nat := args.value.toNat + args.refundOf (limit args)

def totalCost (executed : List ExecuteArgs) : Nat := (executed.map (ExecuteArgs.cost limit)).sum

/-- What the waiting executions may be refunded. -/
def reserved (fs : List (Option Frame)) : Nat :=
  ((awaiting fs).map fun args => args.refundOf (limit args)).sum

/-- No execution burns more gas than it may before it is refunded. -/
def Within (m : Machine) (a : Action) : Prop :=
  ∀ args sender startingGas gasleft began saved ps outcome gas,
    m.pending = ⟨some (.executing args sender startingGas gasleft began), saved⟩ :: ps →
    m.control = .returning outcome → a = .resume gas →
    startingGas.toNat - (gasAfter gasleft gas.spent).toNat ≤ limit args

end

section
variable {env : Env} {limit : ExecuteArgs → Nat} {w₀ : World}

theorem totalCost_append_singleton :
    totalCost limit (executed ++ [args]) = totalCost limit executed + args.cost limit := by
  simp [totalCost, ExecuteArgs.cost]

theorem reserved_executing :
    reserved limit (some (.executing args sender startingGas gasleft began) :: fs) =
      args.refundOf (limit args) + reserved limit fs := by
  rw [reserved, awaiting_cons]
  rfl

theorem reserved_other {f : Option Frame} (hf : f.bind Frame.awaiting? = none) :
    reserved limit (f :: fs) = reserved limit fs := by
  rw [reserved, awaiting_other hf, reserved]

theorem refundOf_le {args : ExecuteArgs} {m n : Nat} (h : m ≤ n) :
    args.refundOf m ≤ args.refundOf n := by
  rw [ExecuteArgs.refundOf, ExecuteArgs.refundOf]
  split
  · exact Nat.mul_le_mul_right _ h
  · exact le_rfl

/-- The payment of a refund is what the burnt gas costs. -/
theorem value_refundPayment {args : ExecuteArgs} {used amount : Uint256}
    (hamount : SafeMath.mul used args.gasPrice = .ok amount) :
    (refundPayment args.gasToken sender amount).value.toNat = args.refundOf used.toNat := by
  rw [refundPayment, ExecuteArgs.refundOf]
  by_cases htoken : args.gasToken = 0
  · rw [if_neg (not_not.mpr htoken), if_pos htoken, SafeMath.toNat_mul hamount]
  · rw [if_pos htoken, if_neg htoken]
    rfl

/-! ## The invariant -/

/-- Since the world `w₀`, the wallet has lost at most what its executions cost, less the refunds
that are still to come and `n` that it may spend at once. -/
structure Spends (env : Env) (limit : ExecuteArgs → Nat) (w₀ : World) (n : Nat)
    (fs : List (Option Frame)) (w : World) : Prop where
  initialised : Initialised env w.storage
  settled : initialising fs = false
  paid : ∃ executed, executions w = executions w₀ ++ executed ∧
    w₀.balance + n + reserved limit fs ≤ w.balance + totalCost limit executed

namespace Spends

/-- What changes neither the executions nor what waits for its refund. -/
theorem of_eq {w w' : World} (h : Spends env limit w₀ n fs w) (hinit : Initialised env w'.storage)
    (hsettled : initialising fs' = false) (hfs : reserved limit fs' = reserved limit fs)
    (hexecutions : executions w' = executions w) (hbalance : w.balance ≤ w'.balance) :
    Spends env limit w₀ n fs' w' := by
  refine ⟨hinit, hsettled, ?_⟩
  obtain ⟨executed, hexecuted, hpaid⟩ := h.paid
  exact ⟨executed, hexecutions.trans hexecuted, by omega⟩

theorem mono (h : Spends env limit w₀ n fs w) (hle : n' ≤ n) : Spends env limit w₀ n' fs w := by
  refine ⟨h.initialised, h.settled, ?_⟩
  obtain ⟨executed, hexecuted, hpaid⟩ := h.paid
  exact ⟨executed, hexecuted, by omega⟩

theorem receive (h : Spends env limit w₀ n fs w) :
    Spends env limit w₀ n fs (w.receive env.this msg) := by
  refine h.of_eq (by rw [storage_receive]; exact h.initialised) h.settled rfl
    (executions_of_history_eq history_receive) ?_
  rw [World.receive]
  split
  · exact le_rfl
  · exact Nat.le_add_right _ _

/-- A call takes its value out of what may be spent. -/
theorem callOut (h : Spends env limit w₀ n (some f :: fs) w) (hvalue : value.toNat ≤ n) :
    (UniversalLogin.callOut env w f to_ value data).Keeps (Spends env limit w₀ 0)
      (fun _ _ => True) fs := by
  have hkept : Spends env limit w₀ 0 (some f :: fs) w := h.mono (Nat.zero_le n)
  rw [UniversalLogin.callOut]
  split
  · exact hkept
  next hfunds =>
  split
  · exact ⟨hkept, trivial⟩
  refine ⟨hkept, h.initialised, h.settled, ?_⟩
  obtain ⟨executed, hexecuted, hpaid⟩ := h.paid
  refine ⟨executed, hexecuted, ?_⟩
  change _ ≤ w.balance - value.toNat + _
  omega

/-- An execution may spend its value, and sets its refund aside. -/
theorem setExecuted (h : Spends env limit w₀ 0 fs w) :
    Spends env limit w₀ args.value.toNat
      (some (.executing args sender startingGas gasleft began) :: fs) (w.setExecuted args) := by
  refine ⟨h.initialised, h.settled, ?_⟩
  obtain ⟨executed, hexecuted, hpaid⟩ := h.paid
  have hexecutions : executions (w.setExecuted args) = executions w ++ [args] :=
    executions_of_history_append (e := .executed args) rfl
  refine ⟨executed ++ [args], by rw [hexecutions, hexecuted, List.append_assoc], ?_⟩
  rw [totalCost_append_singleton, reserved_executing, ExecuteArgs.cost]
  change _ ≤ w.balance + _
  omega

/-- An execution that is about to be refunded may spend what it has set aside. -/
theorem emit
    (h : Spends env limit w₀ 0 (some (.executing args sender startingGas gasleft began) :: fs) w) :
    Spends env limit w₀ (args.refundOf (limit args)) (some (.refunding args) :: fs)
      (w.emit event) := by
  refine ⟨h.initialised, h.settled, ?_⟩
  obtain ⟨executed, hexecuted, hpaid⟩ := h.paid
  refine ⟨executed, hexecuted, ?_⟩
  rw [reserved_executing] at hpaid
  rw [reserved_other rfl]
  change _ ≤ w.balance + _
  omega

theorem start (h : Spends env limit w₀ 0 fs w) :
    (start env msg gas w).Keeps (Spends env limit w₀ 0) (fun _ _ => True) fs := by
  have h : Spends env limit w₀ 0 fs (w.receive env.this msg) := h.receive
  generalize hy : UniversalLogin.start env msg gas w = y
  have hstart : Start env msg gas (w.receive env.this msg) y := hy ▸ Start.of_start
  cases hstart with
  | quiet _ => exact h
  | revert => trivial
  | administered hcall _ happly =>
    refine h.of_eq (h.initialised.apply happly) h.settled rfl ?_ le_rfl
    exact (executions_of_history_append (e := .administered msg.sender _) rfl).trans
      (List.append_nil _)
  | executed _ _ => exact h.setExecuted.callOut le_rfl
  | initialized hcall hfalse =>
    exact absurd (congrArg Call.initialKey hcall) (h.initialised.not_initialises hfalse)
  | registering hcall hfalse =>
    exact absurd (Start.initialises hcall) (h.initialised.not_initialises hfalse)

/-- After `to.call` an execution fails or is refunded for the gas it has burnt. -/
theorem resumeExecuting
    (h : Spends env limit w₀ 0 (some (.executing args sender startingGas gasleft began) :: fs) w)
    (hwithin : startingGas.toNat - (gasAfter gasleft gas.spent).toNat ≤ limit args) :
    (resumeExecuting env args sender startingGas gasleft success gas w).Keeps
      (Spends env limit w₀ 0) (fun _ _ => True) fs := by
  rw [UniversalLogin.resumeExecuting]
  cases hused : SafeMath.sub startingGas (gasAfter gasleft gas.spent) with
  | error _ => trivial
  | ok used =>
    dsimp only
    cases hamount : SafeMath.mul used args.gasPrice with
    | error _ =>
      rw [refund, hamount]
      trivial
    | ok amount =>
      rw [refund_eq hamount]
      refine h.emit.callOut ?_
      rw [value_refundPayment hamount]
      exact refundOf_le (by rw [SafeMath.toNat_sub hused]; exact hwithin)

theorem not_initialising (h : Spends env limit w₀ n (some f :: fs) w) :
    Frame.initialising f = false := by
  have hsettled := h.settled
  rw [initialising, List.any_cons, Bool.or_eq_false_iff] at hsettled
  exact hsettled.1

theorem resume (h : Spends env limit w₀ 0 (some f :: fs) w)
    (hwithin : ∀ args sender startingGas gasleft began,
      f = .executing args sender startingGas gasleft began →
      startingGas.toNat - (gasAfter gasleft gas.spent).toNat ≤ limit args) :
    (resume env f outcome gas w).Keeps (Spends env limit w₀ 0) (fun _ _ => True) fs := by
  cases f with
  | executing args sender startingGas gasleft began =>
    exact h.resumeExecuting (hwithin _ _ _ _ _ rfl)
  | refunding args =>
    generalize hy : UniversalLogin.resume env (.refunding args) outcome gas w = y
    have hresume : Resume env outcome w (.refunding args) y := hy ▸ Resume.of_resume
    cases hresume with
    | revert => trivial
    | refunded => exact h.of_eq h.initialised h.settled (reserved_other rfl).symm rfl le_rfl
  | registering | refundingDeployment =>
    have hnot := h.not_initialising
    cases hnot

theorem stable : Stable (wallet env) (Spends env limit w₀ 0) (fun _ _ => True) where
  push h := h.of_eq h.initialised h.settled (reserved_other rfl) rfl le_rfl
  pop h := h.of_eq h.initialised h.settled (reserved_other rfl).symm rfl le_rfl
  perturb _ h := h.of_eq h.initialised h.settled rfl rfl (Nat.le_add_right _ _)
  call _ := trivial

theorem step {m m' : Machine} (hm : m.Satisfies (Spends env limit w₀ 0) fun _ _ => True)
    (hwithin : Within limit m a) (hstep : step env m a = some m') :
    m'.Satisfies (Spends env limit w₀ 0) fun _ _ => True := by
  refine hm.step stable hstep (fun msg gas _ _ => hm.world.start) ?_
  intro f s ps o gas hpending hcontrol ha
  have hw : Spends env limit w₀ 0 (frames m.pending) m.world := hm.world
  rw [hpending] at hw
  refine hw.resume ?_
  rintro args sender startingGas gasleft began rfl
  exact hwithin args sender startingGas gasleft began s ps o gas hpending hcontrol ha

/-- A run whose executions stay within their limits costs at most what they may cost. -/
theorem run (hinit : Initialised env w.storage)
    (hwithin : Guarded (UniversalLogin.step env) (Within limit) (idle w) acts)
    (hrun : run env (idle w) acts = some m) :
    ∃ executed, executions m.world = executions w ++ executed ∧
      w.balance ≤ m.world.balance + totalCost limit executed := by
  have hidle : (idle w).Satisfies (Spends env limit w 0) fun _ _ => True :=
    Machine.satisfies_idle ⟨hinit, rfl, [], (List.append_nil _).symm, le_rfl⟩
  obtain ⟨executed, hexecuted, hpaid⟩ :=
    (hwithin.run_invariant (fun _ _ _ hm hC hs => step hm hC hs) hrun hidle).world.paid
  exact ⟨executed, hexecuted, by omega⟩

end Spends

/-- No execution burns more gas than there can be. -/
theorem within_max (m : Machine) (a : Action) : Within (fun _ => 2 ^ 256) m a := by
  intro args sender startingGas gasleft began saved ps outcome gas _ _ _
  have hlt := startingGas.isLt
  change _ ≤ 2 ^ 256
  omega

/-- A run of an initialised wallet costs it at most the value and the refund, up to the signed gas
limit, of each execution that it leaves behind, if none burns more gas than that; and whatever is
burnt, it costs nothing if it leaves none behind. -/
theorem ether_spent_le (hinit : Initialised env w.storage)
    (hrun : run env (idle w) acts = some m) :
    ∃ executed, executions m.world = executions w ++ executed ∧
      (Guarded (step env) (Within fun args => args.gasLimit.toNat) (idle w) acts →
        w.balance ≤ m.world.balance +
          (executed.map fun args => args.value.toNat +
            if args.gasToken = 0 then args.gasLimit.toNat * args.gasPrice.toNat else 0).sum) ∧
      (executed = [] → w.balance ≤ m.world.balance) := by
  have hmax : Guarded (step env) (Within fun _ => 2 ^ 256) (idle w) acts :=
    Guarded.of_forall within_max
  obtain ⟨executed, hexecuted, hpaid⟩ := Spends.run hinit hmax hrun
  refine ⟨executed, hexecuted, fun hwithin => ?_, ?_⟩
  · obtain ⟨executed', hexecuted', hpaid'⟩ := Spends.run hinit hwithin hrun
    obtain rfl := List.append_cancel_left (hexecuted.symm.trans hexecuted')
    exact hpaid'
  · rintro rfl
    exact hpaid

end

namespace Sample

/-- A step that does not go on with an `executeSigned`. -/
theorem within_other {m : Machine} (hne : ∀ gas, a ≠ .resume gas) : Within limit m a :=
  fun _ _ _ _ _ _ _ _ gas _ _ ha => absurd ha (hne gas)

theorem within_frame {f : Option Frame} (hf : f.bind Frame.awaiting? = none) :
    Within limit ⟨w, ⟨f, saved⟩ :: ps, .returning outcome⟩ (.resume gas) := by
  rintro _ _ _ _ _ _ _ _ _ ⟨⟩
  cases hf

/-- The relayer burns 40000 gas of the million that is signed for. -/
theorem within_executing : Within (fun args => args.gasLimit.toNat)
    ⟨w, ⟨some (executingFrame keyed executeArgs args gas), saved⟩ :: ps, .returning outcome⟩
    (.resume gas) := by
  intro _ _ _ _ _ _ _ _ _ hpending _ ha
  cases hpending
  cases ha
  decide

theorem run_executeArgs :
    run env (idle keyed) (selfTransaction executeArgs gas gas gas gas gas) = some (idle executed) ∧
      Guarded (step env) (Within fun args => args.gasLimit.toNat) (idle keyed)
        (selfTransaction executeArgs gas gas gas gas gas) := by
  have hinner : start env ⟨wallet, 0, args.data⟩ gas (keyed.setExecuted args) = .done
      ((keyed.setExecuted args).setAdministered wallet addNewcomer extended
        [.keyAdded newcomer 1]) [] :=
    start_admin (.inl rfl) rfl carries.data apply_addNewcomer
  refine run_guarded_cons (within_other nofun) (step_call carries.sender) ?_
  refine run_guarded_cons (within_other nofun) (step_run (carries.start_outer refunded)) ?_
  refine run_guarded_cons (within_other nofun) (step_run hinner) ?_
  refine run_guarded_cons within_executing (step_resume (carries.resume_outer refunded)) ?_
  refine run_guarded_cons (within_other nofun) rfl ?_
  refine run_guarded_cons (within_frame rfl) (step_resume (carries.resume_refunding gas _)) ?_
  exact run_guarded_cons (within_frame rfl) rfl ⟨rfl, trivial⟩

end Sample

theorem ether_spent_le_sample :
    Sample.keyed.balance ≤ Sample.executed.balance + 1000000 := by
  obtain ⟨hrun, hwithin⟩ := Sample.run_executeArgs
  obtain ⟨new, hnew, hpaid, _⟩ := ether_spent_le (.inl rfl) hrun
  obtain rfl : [Sample.args] = new := hnew
  exact hpaid hwithin

end UniversalLogin
