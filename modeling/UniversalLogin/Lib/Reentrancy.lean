import UniversalLogin.Lib.Transition

/-!
# One contract among arbitrary other code

The calls that lead into one contract and out of it. The contract's code is given as two functions:
`start` runs a request up to its end or to the first call the code makes, `resume` goes on with a
frame whose call has ended. Everything else that runs is other code: it may open and close call
frames, call the contract at any depth and fail at any point. A call that fails puts back the world
in which it was made.

An invariant is a pair of predicates. `P frames w` holds of the current world and of every world a
failing call would put back, each with the frames that wait below it; `Q frames r` holds of a
request the contract is about to run. `Machine.Satisfies.step` reduces its preservation to what
`start` and `resume` yield.
-/

namespace Reentrancy

open Transition

/-- A frame that waits for the call it has made (`none` is a frame of other code), and the world
that a failure of that call puts back. -/
structure Pending (φ ω : Type) where
  frame : Option φ
  saved : ω

/-- How a frame of the contract goes on: it ends, it fails, or it waits in `frame` for a call, made
in the world `saved`, to other code (which starts in `world`), to the contract itself, or for one
that fails without reaching its callee. -/
inductive Yield (φ ρ δ ω : Type)
  | done (world : ω) (data : δ)
  | revert
  | other (saved world : ω) (frame : φ)
  | self (saved : ω) (frame : φ) (request : ρ)
  | refused (saved : ω) (frame : φ)

/-- The code of a contract. Readings the code takes from outside, such as the gas left, are of type
`γ`; `perturb` is what may happen to the world without a call. -/
structure Contract (φ ρ δ ω γ ε : Type) where
  /-- The requests that other code can make. -/
  admissible : ρ → Bool
  start : ρ → γ → ω → Yield φ ρ δ ω
  resume : φ → Option δ → γ → ω → Yield φ ρ δ ω
  perturb : ε → ω → ω

inductive Control (ρ δ : Type)
  /-- Other code is running or, with nothing pending, no transaction is. -/
  | outside
  /-- The contract is about to run a request. -/
  | calling (request : ρ)
  /-- A call has ended with data, or has failed. -/
  | returning (outcome : Option δ)

structure Machine (φ ρ δ ω : Type) where
  world : ω
  pending : List (Pending φ ω)
  control : Control ρ δ

inductive Action (ρ δ γ ε : Type)
  /-- Other code opens a call frame of its own, or starts a transaction. -/
  | enter
  | call (request : ρ)
  /-- The running frame of other code ends. -/
  | ret (outcome : Option δ)
  | perturb (change : ε)
  | run (reading : γ)
  | resume (reading : γ)
  /-- A frame of the contract fails for a reason outside its code, such as lack of gas. -/
  | fail

variable {φ ρ δ ω γ ε : Type} {C : Contract φ ρ δ ω γ ε}

def Machine.idle (w : ω) : Machine φ ρ δ ω := ⟨w, [], .outside⟩

/-- The running frame ends and the top pending frame learns the outcome. -/
def finish (pending : List (Pending φ ω)) (outcome : Option δ) (w : ω) :
    Option (Machine φ ρ δ ω) :=
  match pending, outcome with
  | [], _ => none
  | p :: ps, some d => some ⟨w, p :: ps, .returning (some d)⟩
  | p :: ps, none => some ⟨p.saved, p :: ps, .returning none⟩

def Yield.enact (pending : List (Pending φ ω)) (w : ω) : Yield φ ρ δ ω → Option (Machine φ ρ δ ω)
  | .done w' d => finish pending (some d) w'
  | .revert => finish pending none w
  | .other s w' f => some ⟨w', ⟨some f, s⟩ :: pending, .outside⟩
  | .self s f r => some ⟨s, ⟨some f, s⟩ :: pending, .calling r⟩
  | .refused s f => some ⟨s, ⟨some f, s⟩ :: pending, .returning none⟩

def step (C : Contract φ ρ δ ω γ ε) (m : Machine φ ρ δ ω) :
    Action ρ δ γ ε → Option (Machine φ ρ δ ω)
  | .enter =>
    match m.control with
    | .outside => some { m with pending := ⟨none, m.world⟩ :: m.pending }
    | _ => none
  | .call r =>
    match m.control with
    | .outside =>
      if C.admissible r then
        some { m with pending := ⟨none, m.world⟩ :: m.pending, control := .calling r }
      else none
    | _ => none
  | .ret o =>
    match m.control with
    | .outside => finish m.pending o m.world
    | _ => none
  | .perturb e =>
    match m.control with
    | .outside => some { m with world := C.perturb e m.world }
    | _ => none
  | .run g =>
    match m.control with
    | .calling r => (C.start r g m.world).enact m.pending m.world
    | _ => none
  | .resume g =>
    match m.control, m.pending with
    | .returning _, ⟨none, _⟩ :: ps => some ⟨m.world, ps, .outside⟩
    | .returning o, ⟨some f, _⟩ :: ps => (C.resume f o g m.world).enact ps m.world
    | _, _ => none
  | .fail =>
    match m.control, m.pending with
    | .calling _, ps => finish ps none m.world
    | .returning _, ⟨some _, _⟩ :: ps => finish ps none m.world
    | _, _ => none

/-! ## What a step does -/

/-- The graph of `step`, one case for each way in which an action can apply. -/
inductive Step (C : Contract φ ρ δ ω γ ε) :
    Machine φ ρ δ ω → Action ρ δ γ ε → Machine φ ρ δ ω → Prop
  | enter : Step C ⟨w, ps, .outside⟩ .enter ⟨w, ⟨none, w⟩ :: ps, .outside⟩
  | call : C.admissible r = true →
    Step C ⟨w, ps, .outside⟩ (.call r) ⟨w, ⟨none, w⟩ :: ps, .calling r⟩
  | ret : finish ps o w = some m → Step C ⟨w, ps, .outside⟩ (.ret o) m
  | perturb : Step C ⟨w, ps, .outside⟩ (.perturb e) ⟨C.perturb e w, ps, .outside⟩
  | run : (C.start r g w).enact ps w = some m → Step C ⟨w, ps, .calling r⟩ (.run g) m
  | leave : Step C ⟨w, ⟨none, s⟩ :: ps, .returning o⟩ (.resume g) ⟨w, ps, .outside⟩
  | resume : (C.resume f o g w).enact ps w = some m →
    Step C ⟨w, ⟨some f, s⟩ :: ps, .returning o⟩ (.resume g) m
  | failRun : finish ps none w = some m → Step C ⟨w, ps, .calling r⟩ .fail m
  | failResume : finish ps none w = some m →
    Step C ⟨w, ⟨some f, s⟩ :: ps, .returning o⟩ .fail m

theorem Step.of_step (h : step C m a = some m') : Step C m a m' := by
  obtain ⟨w, ps, c⟩ := m
  cases a with
  | enter =>
    cases c <;> simp only [step, reduceCtorEq, Option.some.injEq] at h
    exact h ▸ .enter
  | call r =>
    cases c <;> simp only [step, reduceCtorEq] at h
    split at h
    · next hr =>
      cases h
      exact .call hr
    · cases h
  | ret o =>
    cases c <;> simp only [step, reduceCtorEq] at h
    exact .ret h
  | perturb e =>
    cases c <;> simp only [step, reduceCtorEq, Option.some.injEq] at h
    exact h ▸ .perturb
  | run g =>
    cases c <;> simp only [step, reduceCtorEq] at h
    exact .run h
  | resume g =>
    cases c <;> simp only [step, reduceCtorEq] at h
    obtain _ | ⟨⟨_ | f, s⟩, ps⟩ := ps
    · cases h
    · cases h
      exact .leave
    · exact .resume h
  | fail =>
    cases c with
    | outside => simp [step] at h
    | calling r => exact .failRun h
    | returning o =>
      obtain _ | ⟨⟨_ | f, s⟩, ps⟩ := ps
      · cases h
      · cases h
      · exact .failResume h

/-- A call fails and the world in which it was made is put back. -/
def Machine.Undone (m m' : Machine φ ρ δ ω) : Prop :=
  ∃ p ps, p :: ps <:+ m.pending ∧ m'.pending = p :: ps ∧ m'.world = p.saved ∧
    m'.control = .returning none

theorem eq_of_finish_some {m' : Machine φ ρ δ ω} (h : finish ps (some d) w = some m') :
    m' = ⟨w, ps, .returning (some d)⟩ := by
  obtain _ | ⟨p, ps⟩ := ps
  · cases h
  · cases h
    rfl

theorem Machine.Undone.of_finish {m m' : Machine φ ρ δ ω} (h : finish ps none w = some m')
    (hps : ps <:+ m.pending) : m.Undone m' := by
  obtain _ | ⟨p, ps⟩ := ps
  · cases h
  · cases h
    exact ⟨p, ps, hps, rfl, rfl, rfl⟩

theorem pending_of_finish {m' : Machine φ ρ δ ω} (h : finish ps o w = some m') :
    m'.pending = ps := by
  obtain _ | ⟨p, ps⟩ := ps
  · cases h
  · cases o <;> cases h <;> rfl

theorem returning_of_finish {m' : Machine φ ρ δ ω} (h : finish ps o w = some m') :
    m'.control = .returning o := by
  obtain _ | ⟨p, ps⟩ := ps
  · cases h
  · cases o <;> cases h <;> rfl

/-! ## A call that is about to run -/

/-- A failure puts back the world in which the request is about to run. -/
def Machine.Made (m : Machine φ ρ δ ω) : Prop :=
  ∀ r, m.control = .calling r → ∃ f ps, m.pending = ⟨f, m.world⟩ :: ps

theorem Machine.made_of_finish {m : Machine φ ρ δ ω} (h : finish ps o w = some m) : m.Made := by
  intro r hr
  rw [returning_of_finish h] at hr
  cases hr

theorem Machine.made_of_enact {m : Machine φ ρ δ ω} {y : Yield φ ρ δ ω}
    (h : y.enact ps w = some m) : m.Made := by
  cases y with
  | done | revert => exact made_of_finish h
  | other | refused =>
    cases h
    rintro _ ⟨⟩
  | self s f r =>
    cases h
    exact fun _ _ => ⟨some f, ps, rfl⟩

theorem Machine.Made.step {m m' : Machine φ ρ δ ω} (h : Reentrancy.step C m a = some m') :
    m'.Made := by
  cases Step.of_step h with
  | enter | perturb | leave => rintro _ ⟨⟩
  | call _ => exact fun _ _ => ⟨none, _, rfl⟩
  | ret hf | failRun hf | failResume hf => exact made_of_finish hf
  | run hy | resume hy => exact made_of_enact hy

theorem Machine.Made.run {w : ω} {m : Machine φ ρ δ ω}
    (h : Transition.run (Reentrancy.step C) (.idle w) as = some m) : m.Made := by
  have hidle : (Machine.idle w : Machine φ ρ δ ω).Made := by rintro _ ⟨⟩
  exact run_invariant (fun _ _ _ _ hstep => Machine.Made.step hstep) h hidle

/-! ## A call from its start to its end -/

/-- The same frames over the frames `base`. -/
def Machine.over (m : Machine φ ρ δ ω) (base : List (Pending φ ω)) : Machine φ ρ δ ω :=
  { m with pending := m.pending ++ base }

theorem finish_over {m' : Machine φ ρ δ ω} (h : finish ps o w = some m') :
    finish (ps ++ base) o w = some (m'.over base) := by
  obtain _ | ⟨p, ps⟩ := ps
  · cases h
  · cases o <;> cases h <;> rfl

theorem enact_over {m' : Machine φ ρ δ ω} {y : Yield φ ρ δ ω} (h : y.enact ps w = some m') :
    y.enact (ps ++ base) w = some (m'.over base) := by
  cases y with
  | done | revert => exact finish_over h
  | other | self | refused =>
    cases h
    rfl

/-- A step does not depend on the frames below. -/
theorem step_over {m m' : Machine φ ρ δ ω} (h : step C m a = some m') :
    step C (m.over base) a = some (m'.over base) := by
  cases Step.of_step h with
  | enter | perturb | leave => rfl
  | call hadm => simp [step, Machine.over, hadm]
  | ret hf | failRun hf => exact finish_over hf
  | run hy => exact enact_over hy
  | resume hy => exact enact_over hy
  | failResume hf => exact finish_over hf

theorem run_over {m m' : Machine φ ρ δ ω} (h : run (step C) m as = some m') :
    run (step C) (m.over base) as = some (m'.over base) := by
  induction as generalizing m with
  | nil =>
    cases h
    rfl
  | cons a as ih =>
    obtain ⟨u, hstep, hrest⟩ := run_cons.mp h
    exact run_cons.mpr ⟨u.over base, step_over hstep, ih hrest⟩

/-- The call of `r` made in the world `w` ends with `d` in the world `w'`. Its frames are the only
ones, so that no step goes on after its end. -/
inductive Ends (C : Contract φ ρ δ ω γ ε) (r : ρ) (w : ω) :
    List (Action ρ δ γ ε) → δ → ω → Prop
  | start : C.start r g w = .done w' d → Ends C r w [.run g] d w'
  | resume : run (step C) ⟨w, [], .calling r⟩ as = some ⟨w₁, [⟨some f, s⟩], .returning o⟩ →
    C.resume f o g w₁ = .done w' d → Ends C r w (as ++ [.resume g]) d w'

/-- Whatever waits for the call, its steps lead to its end. -/
theorem Ends.run_over (h : Ends C r w as d w') :
    run (step C) ⟨w, p :: ps, .calling r⟩ as = some ⟨w', p :: ps, .returning (some d)⟩ := by
  cases h with
  | @start g w' d hstart =>
    refine run_cons.mpr ⟨_, congrArg (Yield.enact (p :: ps) w) hstart, rfl⟩
  | @resume as w₁ f s o g w' d hrun hresume =>
    refine run_append.mpr ⟨_, Reentrancy.run_over hrun, run_cons.mpr ⟨_, ?_, rfl⟩⟩
    exact congrArg (Yield.enact (p :: ps) w₁) hresume

/-! ## The lowest frame -/

theorem suffix_of_enact {m' : Machine φ ρ δ ω} {y : Yield φ ρ δ ω}
    (h : y.enact ps w = some m') : ps <:+ m'.pending := by
  cases y with
  | done | revert => exact (pending_of_finish h).symm ▸ List.suffix_refl ps
  | other | self | refused =>
    cases h
    exact List.suffix_cons _ _

/-- A step keeps the lowest frame, unless it is the one that goes on with that frame. -/
theorem step_lowest {m m' : Machine φ ρ δ ω} (h : step C m a = some m')
    (hlowest : [⟨some f, s⟩] <:+ m.pending) :
    [⟨some f, s⟩] <:+ m'.pending ∨
      ∃ w o g, m = ⟨w, [⟨some f, s⟩], .returning o⟩ ∧ a = .resume g ∧
        (C.resume f o g w).enact [] w = some m' := by
  cases Step.of_step h with
  | enter => exact .inl (hlowest.trans (List.suffix_cons _ _))
  | call _ => exact .inl (hlowest.trans (List.suffix_cons _ _))
  | perturb => exact .inl hlowest
  | ret hf | failRun hf =>
    rw [pending_of_finish hf]
    exact .inl hlowest
  | run hy => exact .inl (hlowest.trans (suffix_of_enact hy))
  | leave =>
    rcases List.suffix_cons_iff.mp hlowest with heq | hrest
    · cases heq
    · exact .inl hrest
  | resume hy =>
    rcases List.suffix_cons_iff.mp hlowest with heq | hrest
    · cases heq
      exact .inr ⟨_, _, _, rfl, rfl, hy⟩
    · exact .inl (hrest.trans (suffix_of_enact hy))
  | failResume hf =>
    rcases List.suffix_cons_iff.mp hlowest with heq | hrest
    · cases heq
      cases hf
    · rw [pending_of_finish hf]
      exact .inl hrest

/-- A run keeps the lowest frame, or falls into a part before and a part after the step that goes on
with that frame. -/
theorem run_lowest {m m' : Machine φ ρ δ ω} (h : run (step C) m as = some m')
    (hlowest : [⟨some f, s⟩] <:+ m.pending) :
    [⟨some f, s⟩] <:+ m'.pending ∨
      ∃ before w o g m₁ after, as = before ++ .resume g :: after ∧
        run (step C) m before = some ⟨w, [⟨some f, s⟩], .returning o⟩ ∧
        (C.resume f o g w).enact [] w = some m₁ ∧ run (step C) m₁ after = some m' := by
  induction as generalizing m with
  | nil =>
    cases h
    exact .inl hlowest
  | cons a as ih =>
    obtain ⟨u, hstep, hrest⟩ := run_cons.mp h
    rcases step_lowest hstep hlowest with hkept | ⟨w, o, g, rfl, rfl, hy⟩
    · refine (ih hrest hkept).imp id ?_
      rintro ⟨before, w, o, g, m₁, after, rfl, hbefore, hy, hafter⟩
      exact ⟨a :: before, w, o, g, m₁, after, rfl, run_cons.mpr ⟨u, hstep, hbefore⟩, hy, hafter⟩
    · exact .inr ⟨[], w, o, g, u, as, rfl, rfl, hy, hrest⟩

/-! ## Invariants -/

/-- The waiting frames, innermost first. -/
def frames (pending : List (Pending φ ω)) : List (Option φ) := pending.map (·.frame)

@[simp] theorem frames_cons (p : Pending φ ω) (ps : List (Pending φ ω)) :
    frames (p :: ps) = p.frame :: frames ps := rfl

/-- `P` holds of every saved world, with the frames that wait when it is put back. -/
def Saved (P : List (Option φ) → ω → Prop) : List (Pending φ ω) → Prop
  | [] => True
  | p :: ps => P (p.frame :: frames ps) p.saved ∧ Saved P ps

structure Machine.Satisfies (P : List (Option φ) → ω → Prop) (Q : List (Option φ) → ρ → Prop)
    (m : Machine φ ρ δ ω) : Prop where
  world : P (frames m.pending) m.world
  saved : Saved P m.pending
  request : ∀ r, m.control = .calling r → Q (frames m.pending) r

/-- What a frame above the frames `fs` yields keeps the invariant. -/
def Yield.Keeps (P : List (Option φ) → ω → Prop) (Q : List (Option φ) → ρ → Prop)
    (fs : List (Option φ)) : Yield φ ρ δ ω → Prop
  | .done w _ => P fs w
  | .revert => True
  | .other s w f => P (some f :: fs) s ∧ P (some f :: fs) w
  | .self s f r => P (some f :: fs) s ∧ Q (some f :: fs) r
  | .refused s f => P (some f :: fs) s

/-- The invariant does not depend on what other code does. -/
structure Stable (C : Contract φ ρ δ ω γ ε) (P : List (Option φ) → ω → Prop)
    (Q : List (Option φ) → ρ → Prop) : Prop where
  push : ∀ {fs w}, P fs w → P (none :: fs) w
  pop : ∀ {fs w}, P (none :: fs) w → P fs w
  perturb : ∀ {fs w} e, P fs w → P fs (C.perturb e w)
  call : ∀ {fs r}, C.admissible r = true → Q (none :: fs) r

section
variable {P : List (Option φ) → ω → Prop} {Q : List (Option φ) → ρ → Prop}

theorem Machine.satisfies_idle {w : ω} (h : P [] w) :
    (Machine.idle w : Machine φ ρ δ ω).Satisfies P Q :=
  ⟨h, trivial, nofun⟩

theorem satisfies_of_finish {m : Machine φ ρ δ ω} (h : finish ps o w = some m)
    (hs : Saved P ps) (hw : o.isSome → P (frames ps) w) : m.Satisfies P Q := by
  obtain _ | ⟨p, ps⟩ := ps
  · cases h
  · cases o with
    | none =>
      cases h
      exact ⟨hs.1, hs, nofun⟩
    | some d =>
      cases h
      exact ⟨hw rfl, hs, nofun⟩

theorem satisfies_of_enact {m : Machine φ ρ δ ω} {y : Yield φ ρ δ ω}
    (h : y.enact ps w = some m) (hs : Saved P ps) (hy : y.Keeps P Q (frames ps)) :
    m.Satisfies P Q := by
  cases y with
  | done w' d => exact satisfies_of_finish h hs fun _ => hy
  | revert => exact satisfies_of_finish h hs nofun
  | other s w' f =>
    cases h
    exact ⟨hy.2, ⟨hy.1, hs⟩, nofun⟩
  | self s f r =>
    cases h
    refine ⟨hy.1, ⟨hy.1, hs⟩, ?_⟩
    rintro _ ⟨⟩
    exact hy.2
  | refused s f =>
    cases h
    exact ⟨hy, ⟨hy, hs⟩, nofun⟩

/-- One step keeps an invariant if what the contract's code yields in it does. -/
theorem Machine.Satisfies.step {m m' : Machine φ ρ δ ω} (hm : m.Satisfies P Q)
    (hstable : Stable C P Q) (h : step C m a = some m')
    (hstart : ∀ r g, m.control = .calling r → a = .run g →
      (C.start r g m.world).Keeps P Q (frames m.pending))
    (hresume : ∀ f s ps o g, m.pending = ⟨some f, s⟩ :: ps → m.control = .returning o →
      a = .resume g → (C.resume f o g m.world).Keeps P Q (frames ps)) :
    m'.Satisfies P Q := by
  obtain ⟨hw, hs, hr⟩ := hm
  cases Step.of_step h with
  | enter => exact ⟨hstable.push hw, ⟨hstable.push hw, hs⟩, nofun⟩
  | call hadm =>
    refine ⟨hstable.push hw, ⟨hstable.push hw, hs⟩, ?_⟩
    rintro _ ⟨⟩
    exact hstable.call hadm
  | ret hf => exact satisfies_of_finish hf hs fun _ => hw
  | perturb => exact ⟨hstable.perturb _ hw, hs, nofun⟩
  | run hy => exact satisfies_of_enact hy hs (hstart _ _ rfl rfl)
  | leave => exact ⟨hstable.pop hw, hs.2, nofun⟩
  | resume hy => exact satisfies_of_enact hy hs.2 (hresume _ _ _ _ _ rfl rfl rfl)
  | failRun hf => exact satisfies_of_finish hf hs nofun
  | failResume hf => exact satisfies_of_finish hf hs.2 nofun

/-- The invariant rule for all runs. -/
theorem Machine.Satisfies.run {m m' : Machine φ ρ δ ω} (hstable : Stable C P Q)
    (hstart : ∀ fs r g w, P fs w → Q fs r → (C.start r g w).Keeps P Q fs)
    (hresume : ∀ fs f o g w, P (some f :: fs) w → (C.resume f o g w).Keeps P Q fs)
    (h : run (Reentrancy.step C) m as = some m') (hm : m.Satisfies P Q) : m'.Satisfies P Q := by
  refine run_invariant (fun m a m' hm hstep => ?_) h hm
  refine hm.step hstable hstep (fun r g hc _ => hstart _ r g _ hm.world (hm.request r hc)) ?_
  intro f s ps o g hp _ _
  have hw := hm.world
  rw [hp] at hw
  exact hresume _ f o g m.world hw

end

end Reentrancy
