import UniversalLogin.Lib.Transition
import UniversalLogin.Relayer.MessageExecutor

/-!
# The history of the example application

The presses of the button that the application shows (`HistoryService.js`) and the names that it
finds for those who pressed it (`EnsNameService.js`). Both services change one array, in loops that
wait for the provider; each time the screen is opened they begin new loops, while old ones may still
sleep or wait. Whatever the order of the answers, what is shown is the log of the chain from its
beginning, each press once and in order, under names that were found for its address, and it only
grows (`presses_shown`). This is so while the logs of the last 500000 blocks are all the logs.
-/

namespace UniversalLogin

open Transition

structure PressLog where
  blockNumber : Nat
  data : Bytes
  deriving DecidableEq

structure Presser where
  address : JsString
  /-- It is null where no name was found. -/
  name : Option JsString
  pressTime : JsString
  score : Nat
  key : JsString
  deriving DecidableEq

/-- How addresses and times are written. -/
structure PressTexts where
  /-- An address with its checksum. -/
  getAddress : Address → JsString
  distanceInWords : (now time : Nat) → JsString

/-- `getEventFormLogs`, at a time. -/
def getEventFormLogs (texts : PressTexts) (now : Nat) (event : PressLog) : Presser :=
  let presser := texts.getAddress ((wordAt event.data 0).setWidth 160)
  { address := presser
    name := some presser
    pressTime := texts.distanceInWords now (nearestNumber (wordAt event.data 32).toNat)
    score := nearestNumber (wordAt event.data 64).toNat
    key := hexlify event.data }

/-- What a loop of `HistoryService` waits for. -/
inductive HistoryLoop
  | blockNumber
  | logs (fromBlock : Nat)
  /-- To go on with what was answered. -/
  | newEvents (newEvents : List PressLog)
  /-- To go on after `getPressEvents`. What was answered to it is kept for reference. -/
  | pressEvents (newEvents : List PressLog)
  | callback
  | sleeping
  | ended

/-- What a loop of `EnsNameService` waits for. -/
inductive NameLoop
  | lookupAddress (count : Nat) (name : JsString)
  | sleeping
  | ended

/-- What was passed to a callback, as it was then, after that many logs were answered. -/
structure Delivery where
  events : List Presser
  lastClick : JsString
  answered : Nat

structure HistoryService where
  running : Bool
  pressers : List Presser
  loops : List HistoryLoop
  /-- The fields of `EnsNameService`. -/
  namesRunning : Bool
  isWorking : Bool
  nameLoops : List NameLoop
  /-- The chain, with the logs of the button. -/
  blockNumber : Nat
  logs : List PressLog
  delivered : List Delivery
  /-- The answers of `lookupAddress`. -/
  lookedUp : List (JsString × Option JsString)

namespace HistoryService

def initial : HistoryService := ⟨false, [], [], false, false, [], 0, [], [], []⟩

inductive Action
  | mine (presses : List Bytes)
  | subscribe
  | unsubscribeAll
  /-- The provider answers a loop, and then the loop goes on. -/
  | blockNumber (i : Nat)
  | logs (i : Nat)
  | newEvents (i : Nat) (now : Nat)
  | pressEvents (i : Nat)
  /-- The callback has returned. -/
  | callback (i : Nat)
  | wake (i : Nat)
  /-- What a loop waits for is rejected. -/
  | reject (i : Nat)
  | subscribeNames
  | unsubscribeNames
  | lookupAddress (i : Nat) (ensName : Option JsString)
  | wakeNames (i : Nat)
  | rejectNames (i : Nat)

/-- `changePressersName` up to its next `await`, from a count down. -/
inductive Scan
  | lookupAddress (count : Nat) (name : JsString)
  | done
  /-- A name is null. -/
  | throws

def scan (pressers : List Presser) : Nat → Scan
  | 0 => .done
  | count + 1 =>
    match pressers[count]?.bind (·.name) with
    | none => .throws
    | some name =>
      if name.take 2 = "0x".toList then .lookupAddress count name else scan pressers count

section
variable (texts : PressTexts) (service : HistoryService)

def setLoop (i : Nat) (loop : HistoryLoop) : HistoryService :=
  { service with loops := service.loops.set i loop }

def setNameLoop (i : Nat) (loop : NameLoop) : HistoryService :=
  { service with nameLoops := service.nameLoops.set i loop }

/-- `getPressEvents` after it was answered. -/
def getPressEvents (newEvents : List PressLog) (now : Nat) : HistoryService :=
  if newEvents.length ≠ service.pressers.length then
    { service with
      pressers := service.pressers ++
        (newEvents.drop service.pressers.length).map (getEventFormLogs texts now) }
  else service

/-- `calculateResult` after `getPressEvents`. -/
def calculateResult (answered : Nat) : Delivery :=
  let events := service.pressers.reverse
  { events, lastClick := (events.head?.map (·.pressTime)).getD "0".toList, answered }

/-- `lookupAddress` was answered. -/
def rename (count : Nat) (name : JsString) (ensName : Option JsString) : HistoryService :=
  { service with
    pressers := service.pressers.modify count fun presser => { presser with name := ensName }
    lookedUp := service.lookedUp ++ [(name, ensName)] }

/-- `changePressersName` from a count on. -/
def changePressersName (i count : Nat) : HistoryService :=
  match scan service.pressers count with
  | .lookupAddress count name => service.setNameLoop i (.lookupAddress count name)
  | .done => { service.setNameLoop i .sleeping with isWorking := false }
  | .throws => service.setNameLoop i .ended

/-- The body of the loop of `EnsNameService`. -/
def nameLoop (i : Nat) : HistoryService :=
  if service.isWorking then service.setNameLoop i .sleeping
  else { service with isWorking := true }.changePressersName i service.pressers.length

def step : Action → Option HistoryService
  | .mine presses =>
    some { service with
      blockNumber := service.blockNumber + 1
      logs := service.logs ++ presses.map fun data => ⟨service.blockNumber + 1, data⟩ }
  | .subscribe =>
    some { service with running := true, loops := service.loops ++ [.blockNumber] }
  | .unsubscribeAll => some { service with running := false }
  | .blockNumber i =>
    match service.loops[i]? with
    | some .blockNumber => some (service.setLoop i (.logs (service.blockNumber - 500000)))
    | _ => none
  | .logs i =>
    match service.loops[i]? with
    | some (.logs fromBlock) =>
      some (service.setLoop i (.newEvents (service.logs.filter (fromBlock ≤ ·.blockNumber))))
    | _ => none
  | .newEvents i now =>
    match service.loops[i]? with
    | some (.newEvents newEvents) =>
      some ((service.getPressEvents texts newEvents now).setLoop i
        (.pressEvents newEvents))
    | _ => none
  | .pressEvents i =>
    match service.loops[i]? with
    | some (.pressEvents newEvents) =>
      some { service.setLoop i .callback with
        delivered := service.delivered ++ [service.calculateResult newEvents.length] }
    | _ => none
  | .callback i =>
    match service.loops[i]? with
    | some .callback => some (service.setLoop i .sleeping)
    | _ => none
  | .wake i =>
    match service.loops[i]? with
    | some .sleeping =>
      some (service.setLoop i (if service.running then .blockNumber else .ended))
    | _ => none
  | .reject i =>
    match service.loops[i]? with
    | some .blockNumber | some (.logs _) | some .callback => some (service.setLoop i .ended)
    | _ => none
  | .subscribeNames =>
    let i := service.nameLoops.length
    let subscribed := { service with
      namesRunning := true
      nameLoops := service.nameLoops ++ [NameLoop.sleeping] }
    some (subscribed.nameLoop i)
  | .unsubscribeNames => some { service with namesRunning := false }
  | .lookupAddress i ensName =>
    match service.nameLoops[i]? with
    | some (.lookupAddress count name) =>
      some ((service.rename count name ensName).changePressersName i count)
    | _ => none
  | .wakeNames i =>
    match service.nameLoops[i]? with
    | some .sleeping =>
      if service.namesRunning then some (service.nameLoop i)
      else some (service.setNameLoop i .ended)
    | _ => none
  | .rejectNames i =>
    match service.nameLoops[i]? with
    | some (.lookupAddress _ _) => some (service.setNameLoop i .ended)
    | _ => none

end

/-! ## What is shown -/

/-- A name that was found for an address, or for such a name. -/
inductive Named (lookedUp : List (JsString × Option JsString)) (address : JsString) :
    Option JsString → Prop
  | own : Named lookedUp address (some address)
  | found : Named lookedUp address (some name) → (name, answer) ∈ lookedUp →
    Named lookedUp address answer

/-- A presser is the one of a log, at some time, under a name of its address. -/
structure Presses (texts : PressTexts)
    (lookedUp : List (JsString × Option JsString)) (presser : Presser) (log : PressLog) : Prop where
  event : ∃ now, { getEventFormLogs texts now log with name := presser.name } = presser
  name : Named lookedUp presser.address presser.name

/-- The pressers are those of the first logs. -/
def Mirrors (texts : PressTexts) (lookedUp : List (JsString × Option JsString))
    (pressers : List Presser) (logs : List PressLog) : Prop :=
  ∃ shown, shown <+: logs ∧ List.Forall₂ (Presses texts lookedUp) pressers shown

section
variable {texts : PressTexts}
  {lookedUp lookedUp' : List (JsString × Option JsString)} {address : JsString}
  {name : Option JsString} {presser : Presser} {log : PressLog} {pressers : List Presser}
  {logs newEvents : List PressLog}

theorem Named.mono (h : Named lookedUp address name) (hsub : lookedUp ⊆ lookedUp') :
    Named lookedUp' address name := by
  induction h with
  | own => exact .own
  | found _ hmem ih => exact .found ih (hsub hmem)

theorem Presses.mono (h : Presses texts lookedUp presser log)
    (hsub : lookedUp ⊆ lookedUp') : Presses texts lookedUp' presser log :=
  ⟨h.event, h.name.mono hsub⟩

theorem presses_getEventFormLogs (now : Nat) (log : PressLog) :
    Presses texts lookedUp (getEventFormLogs texts now log) log :=
  ⟨⟨now, rfl⟩, .own⟩

namespace Mirrors

theorem mono (h : Mirrors texts lookedUp pressers logs) (hsub : lookedUp ⊆ lookedUp') :
    Mirrors texts lookedUp' pressers logs := by
  obtain ⟨shown, hshown, hpresses⟩ := h
  exact ⟨shown, hshown, hpresses.imp fun _ _ hp => hp.mono hsub⟩

theorem append (h : Mirrors texts lookedUp pressers logs) (more : List PressLog) :
    Mirrors texts lookedUp pressers (logs ++ more) := by
  obtain ⟨shown, hshown, hpresses⟩ := h
  exact ⟨shown, hshown.trans (List.prefix_append _ _), hpresses⟩

/-- The logs that are not shown yet come after those that are. -/
theorem grow (h : Mirrors texts lookedUp pressers logs) (hnew : newEvents <+: logs)
    (now : Nat) : Mirrors texts lookedUp
      (pressers ++ (newEvents.drop pressers.length).map (getEventFormLogs texts now))
      logs := by
  obtain ⟨shown, hshown, hpresses⟩ := h
  have hlength := hpresses.length_eq
  have hrest : List.Forall₂ (Presses texts lookedUp)
      ((newEvents.drop pressers.length).map (getEventFormLogs texts now))
      (newEvents.drop pressers.length) := by
    rw [List.forall₂_map_left_iff, List.forall₂_same]
    exact fun log _ => presses_getEventFormLogs now log
  refine ⟨shown ++ newEvents.drop pressers.length, ?_, List.rel_append hpresses hrest⟩
  rcases List.prefix_or_prefix_of_prefix hshown hnew with hmore | hless
  · obtain ⟨rest, rfl⟩ := hmore
    rwa [hlength, List.drop_left]
  · rwa [List.drop_of_length_le (hlength ▸ hless.length_le), List.append_nil]

/-- A name is found for a presser. -/
theorem rename (h : Mirrors texts lookedUp pressers logs)
    (hpresser : pressers[count]? = some presser) (hname : Named lookedUp presser.address name) :
    Mirrors texts lookedUp
      (pressers.modify count fun presser => { presser with name }) logs := by
  obtain ⟨shown, hshown, hpresses⟩ := h
  refine ⟨shown, hshown, ?_⟩
  clear hshown
  induction hpresses generalizing count with
  | nil => cases hpresser
  | @cons p log pressers shown hp hrest ih =>
    cases count with
    | zero =>
      cases hpresser
      obtain ⟨⟨now, hlog⟩, _⟩ := hp
      refine .cons ⟨⟨now, ?_⟩, hname⟩ hrest
      exact congrArg (fun p : Presser => { p with name }) hlog
    | succ count => exact .cons hp (ih hpresser)

theorem named (h : Mirrors texts lookedUp pressers logs)
    (hpresser : presser ∈ pressers) : Named lookedUp presser.address presser.name := by
  obtain ⟨shown, hshown, hpresses⟩ := h
  clear hshown
  induction hpresses with
  | nil => cases hpresser
  | cons hp _ ih =>
    rcases List.mem_cons.mp hpresser with rfl | hrest
    · exact hp.name
    · exact ih hrest

end Mirrors

/-- The name of a presser is looked up. -/
theorem name_of_scan (h : scan pressers count = .lookupAddress count' found) :
    ∃ presser, pressers[count']? = some presser ∧ presser.name = some found := by
  induction count with
  | zero => cases h
  | succ count ih =>
    rw [scan] at h
    split at h
    · cases h
    · next name hname =>
      split at h
      · cases h
        obtain ⟨presser, hpresser, hname⟩ := Option.bind_eq_some_iff.mp hname
        exact ⟨presser, hpresser, hname⟩
      · exact ih h

end

section
variable {texts : PressTexts} {service service' : HistoryService}

/-- What the pressers, the loops and the callbacks have of the chain. -/
structure Shows (texts : PressTexts) (service : HistoryService) : Prop where
  pressers : Mirrors texts service.lookedUp service.pressers service.logs
  newEvents : ∀ newEvents, .newEvents newEvents ∈ service.loops → newEvents <+: service.logs
  pressEvents : ∀ newEvents, .pressEvents newEvents ∈ service.loops →
    newEvents.length ≤ service.pressers.length
  lookups : ∀ count name, .lookupAddress count name ∈ service.nameLoops →
    ∃ presser, service.pressers[count]? = some presser ∧
      Named service.lookedUp presser.address (some name)
  delivered : ∀ d ∈ service.delivered,
    d.answered ≤ d.events.length ∧ d.events.length ≤ service.pressers.length ∧
      Mirrors texts service.lookedUp d.events.reverse service.logs
  grows : service.delivered.Pairwise fun d d' => d.events.length ≤ d'.events.length

namespace Shows

theorem setLoop {loop : HistoryLoop} (h : service.Shows texts)
    (hnew : ∀ newEvents, loop = .newEvents newEvents → newEvents <+: service.logs)
    (hpress : ∀ newEvents, loop = .pressEvents newEvents →
      newEvents.length ≤ service.pressers.length) :
    (service.setLoop i loop).Shows texts where
  __ := h
  newEvents newEvents hmem := by
    rcases List.mem_or_eq_of_mem_set hmem with hold | rfl
    · exact h.newEvents newEvents hold
    · exact hnew newEvents rfl
  pressEvents newEvents hmem := by
    rcases List.mem_or_eq_of_mem_set hmem with hold | rfl
    · exact h.pressEvents newEvents hold
    · exact hpress newEvents rfl

theorem setNameLoop {loop : NameLoop} (h : service.Shows texts)
    (hloop : ∀ count name, loop = .lookupAddress count name →
      ∃ presser, service.pressers[count]? = some presser ∧
        Named service.lookedUp presser.address (some name)) :
    (service.setNameLoop i loop).Shows texts where
  __ := h
  lookups count name hmem := by
    rcases List.mem_or_eq_of_mem_set hmem with hold | rfl
    · exact h.lookups count name hold
    · exact hloop count name rfl

/-- More pressers are shown after those that are. -/
theorem push (h : service.Shows texts)
    (hgrow : Mirrors texts service.lookedUp (service.pressers ++ more) service.logs) :
    Shows texts { service with pressers := service.pressers ++ more } where
  pressers := hgrow
  newEvents := h.newEvents
  pressEvents newEvents hmem := by
    have hle := h.pressEvents newEvents hmem
    rw [List.length_append]
    exact hle.trans (Nat.le_add_right _ _)
  lookups count name hmem := by
    obtain ⟨presser, hpresser, hname⟩ := h.lookups count name hmem
    have hlt := (List.getElem?_eq_some_iff.mp hpresser).1
    exact ⟨presser, (List.getElem?_append_left hlt).trans hpresser, hname⟩
  delivered d hd := by
    obtain ⟨hanswered, hlength, hmirrors⟩ := h.delivered d hd
    rw [List.length_append]
    exact ⟨hanswered, hlength.trans (Nat.le_add_right _ _), hmirrors⟩
  grows := h.grows

/-- The new events are shown. -/
theorem getPressEvents {newEvents : List PressLog} (h : service.Shows texts)
    (hnew : newEvents <+: service.logs) (now : Nat) :
    (service.getPressEvents texts newEvents now).Shows texts ∧
      newEvents.length ≤ (service.getPressEvents texts newEvents now).pressers.length := by
  rw [HistoryService.getPressEvents]
  split
  · refine ⟨h.push (h.pressers.grow hnew now), ?_⟩
    simp only [List.length_append, List.length_map, List.length_drop]
    omega
  · next heq => exact ⟨h, (not_ne_iff.mp heq).le⟩

/-- A result is passed to the callback. -/
theorem calculateResult {answered : Nat} (h : service.Shows texts)
    (hanswered : answered ≤ service.pressers.length) :
    Shows texts { service with
      delivered := service.delivered ++ [service.calculateResult answered] } where
  __ := h
  delivered d hd := by
    rcases List.mem_append.mp hd with hold | hnew
    · exact h.delivered d hold
    · cases List.mem_singleton.mp hnew
      simp only [HistoryService.calculateResult, List.length_reverse, List.reverse_reverse]
      exact ⟨hanswered, le_rfl, h.pressers⟩
  grows := by
    refine List.pairwise_append.mpr ⟨h.grows, List.pairwise_singleton _ _, fun d hd d' hd' => ?_⟩
    cases List.mem_singleton.mp hd'
    simp only [HistoryService.calculateResult, List.length_reverse]
    exact (h.delivered d hd).2.1

theorem rename {name : JsString} (h : service.Shows texts)
    (hloop : .lookupAddress count name ∈ service.nameLoops) (ensName : Option JsString) :
    (service.rename count name ensName).Shows texts := by
  obtain ⟨presser, hpresser, hname⟩ := h.lookups count name hloop
  have hsub : service.lookedUp ⊆ service.lookedUp ++ [(name, ensName)] :=
    List.subset_append_left _ _
  have hlength : (service.rename count name ensName).pressers.length = service.pressers.length :=
    List.length_modify _ _ _
  have hfound : Named (service.lookedUp ++ [(name, ensName)]) presser.address ensName :=
    .found (hname.mono hsub) (List.mem_append_right _ List.mem_cons_self)
  constructor
  case pressers => exact (h.pressers.mono hsub).rename hpresser hfound
  case newEvents => exact h.newEvents
  case pressEvents => exact fun newEvents hmem => hlength ▸ h.pressEvents newEvents hmem
  case lookups =>
    intro count' name' hmem
    obtain ⟨presser', hpresser', hname'⟩ := h.lookups count' name' hmem
    rw [HistoryService.rename, List.getElem?_modify, hpresser']
    split
    · exact ⟨_, rfl, hname'.mono hsub⟩
    · exact ⟨_, rfl, hname'.mono hsub⟩
  case delivered =>
    intro d hd
    obtain ⟨hanswered, hle, hmirrors⟩ := h.delivered d hd
    exact ⟨hanswered, hlength ▸ hle, hmirrors.mono hsub⟩
  case grows => exact h.grows

theorem changePressersName (h : service.Shows texts) :
    (service.changePressersName i count).Shows texts := by
  rw [HistoryService.changePressersName]
  split
  · next count' name hscan =>
    obtain ⟨presser, hpresser, hname⟩ := name_of_scan hscan
    refine h.setNameLoop fun count name heq => ?_
    cases heq
    refine ⟨presser, hpresser, ?_⟩
    rw [← hname]
    exact h.pressers.named (List.mem_of_getElem? hpresser)
  · have hsleeping : (service.setNameLoop i .sleeping).Shows texts := h.setNameLoop nofun
    exact { hsleeping with }
  · exact h.setNameLoop nofun

theorem nameLoop (h : service.Shows texts) :
    (service.nameLoop i).Shows texts := by
  rw [HistoryService.nameLoop]
  split
  · exact h.setNameLoop nofun
  · have hworking : Shows texts { service with isWorking := true } := { h with }
    exact hworking.changePressersName

theorem subscribeNames (h : service.Shows texts) :
    Shows texts { service with nameLoops := service.nameLoops ++ [NameLoop.sleeping] } where
  __ := h
  lookups count name hmem := by
    rcases List.mem_append.mp hmem with hold | hnew
    · exact h.lookups count name hold
    · cases List.mem_singleton.mp hnew

theorem mine (h : service.Shows texts) (more : List PressLog) (blockNumber : Nat) :
    Shows texts { service with blockNumber, logs := service.logs ++ more } where
  __ := h
  pressers := h.pressers.append more
  newEvents newEvents hmem := (h.newEvents newEvents hmem).trans (List.prefix_append _ _)
  delivered d hd := by
    obtain ⟨hanswered, hlength, hmirrors⟩ := h.delivered d hd
    exact ⟨hanswered, hlength, hmirrors.append more⟩

theorem subscribe (h : service.Shows texts) :
    Shows texts { service with
      running := true, loops := service.loops ++ [HistoryLoop.blockNumber] } where
  __ := h
  newEvents newEvents hmem := by
    rcases List.mem_append.mp hmem with hold | hnew
    · exact h.newEvents newEvents hold
    · cases List.mem_singleton.mp hnew
  pressEvents newEvents hmem := by
    rcases List.mem_append.mp hmem with hold | hnew
    · exact h.pressEvents newEvents hold
    · cases List.mem_singleton.mp hnew

end Shows

/-- The logs that a loop is answered are all the logs. -/
def Complete (service : HistoryService) : Action → Prop
  | .logs i =>
    ∀ fromBlock, service.loops[i]? = some (.logs fromBlock) →
      ∀ log ∈ service.logs, fromBlock ≤ log.blockNumber
  | _ => True

theorem Shows.step (h : service.Shows texts) (hcomplete : service.Complete a)
    (hstep : service.step texts a = some service') : service'.Shows texts := by
  cases a with
  | mine presses =>
    cases hstep
    exact h.mine _ _
  | subscribe =>
    cases hstep
    exact h.subscribe
  | unsubscribeAll =>
    cases hstep
    exact { h with }
  | blockNumber i =>
    rw [HistoryService.step] at hstep
    split at hstep
    · cases hstep
      exact h.setLoop nofun nofun
    · cases hstep
  | logs i =>
    rw [HistoryService.step] at hstep
    split at hstep
    · next fromBlock hi =>
      cases hstep
      refine h.setLoop (fun newEvents heq => ?_) nofun
      cases heq
      rw [List.filter_eq_self.mpr fun log hlog => decide_eq_true (hcomplete fromBlock hi log hlog)]
    · cases hstep
  | newEvents i now =>
    rw [HistoryService.step] at hstep
    split at hstep
    · next newEvents hi =>
      cases hstep
      have hnew := h.newEvents newEvents (List.mem_of_getElem? hi)
      obtain ⟨hshows, hlength⟩ := h.getPressEvents hnew now
      refine hshows.setLoop nofun fun newEvents heq => ?_
      cases heq
      exact hlength
    · cases hstep
  | pressEvents i =>
    rw [HistoryService.step] at hstep
    split at hstep
    · next newEvents hi =>
      cases hstep
      have hanswered := h.pressEvents newEvents (List.mem_of_getElem? hi)
      exact (h.calculateResult hanswered).setLoop nofun nofun
    · cases hstep
  | callback i =>
    rw [HistoryService.step] at hstep
    split at hstep
    · cases hstep
      exact h.setLoop nofun nofun
    · cases hstep
  | wake i =>
    rw [HistoryService.step] at hstep
    split at hstep
    · cases hstep
      split
      · exact h.setLoop nofun nofun
      · exact h.setLoop nofun nofun
    · cases hstep
  | reject i =>
    rw [HistoryService.step] at hstep
    split at hstep
    case h_4 => cases hstep
    all_goals
      cases hstep
      exact h.setLoop nofun nofun
  | subscribeNames =>
    cases hstep
    have hsubscribed : Shows texts { service with
        namesRunning := true, nameLoops := service.nameLoops ++ [NameLoop.sleeping] } :=
      { h.subscribeNames with }
    exact hsubscribed.nameLoop
  | unsubscribeNames =>
    cases hstep
    exact { h with }
  | lookupAddress i ensName =>
    rw [HistoryService.step] at hstep
    split at hstep
    · next count name hi =>
      cases hstep
      exact (h.rename (List.mem_of_getElem? hi) ensName).changePressersName
    · cases hstep
  | wakeNames i =>
    rw [HistoryService.step] at hstep
    split at hstep
    · split at hstep
      · cases hstep
        exact h.nameLoop
      · cases hstep
        exact h.setNameLoop nofun
    · cases hstep
  | rejectNames i =>
    rw [HistoryService.step] at hstep
    split at hstep
    · cases hstep
      exact h.setNameLoop nofun
    · cases hstep

theorem shows_initial : initial.Shows texts where
  pressers := ⟨[], List.nil_prefix, .nil⟩
  newEvents _ h := nomatch h
  pressEvents _ h := nomatch h
  lookups _ _ h := nomatch h
  delivered _ h := nomatch h
  grows := .nil

end

namespace Sample

/-- The addresses of the sample have no letters, and its times are those of the presses. -/
def texts : PressTexts :=
  ⟨fun a => hexlify (packAddress a), fun _ _ => "less than 5 seconds".toList⟩

def press (presser : Address) (score : Uint256) : Bytes :=
  packUint256 (presser.setWidth 256) ++ packUint256 1546300800 ++ packUint256 score

/-- The screen is opened twice, and the answer to the first loop is the older one. -/
def reopened : List Action :=
  [.mine [press 0x11 5], .subscribe, .subscribe, .blockNumber 0, .logs 0, .mine [press 0x12 7],
    .blockNumber 1, .logs 1, .newEvents 1 1546300800000, .subscribeNames,
    .newEvents 0 1546300800000, .pressEvents 0,
    .lookupAddress 0 (some "alex.mylogin.eth".toList), .pressEvents 1]

def afterReopened : HistoryService :=
  (Transition.run (step texts) initial reopened).getD initial

/-- The first blocks are asked for from the beginning. -/
theorem complete_of_le {service : HistoryService} (blockNumber : Nat)
    (hloop : service.loops[i]? = some (.logs (blockNumber - 500000)))
    (hle : blockNumber ≤ 500000) : service.Complete (.logs i) := by
  intro fromBlock h log _
  rw [hloop] at h
  have hfrom := HistoryLoop.logs.inj (Option.some.inj h)
  omega

/-- The answers to the two loops are all the logs that there are. -/
theorem run_reopened : Transition.run (step texts) initial reopened = some afterReopened ∧
    Guarded (step texts) Complete initial reopened := by
  iterate 4 refine run_guarded_cons trivial rfl ?_
  refine run_guarded_cons (complete_of_le 1 rfl (by decide)) rfl ?_
  iterate 2 refine run_guarded_cons trivial rfl ?_
  refine run_guarded_cons (complete_of_le 2 rfl (by decide)) rfl ?_
  iterate 6 refine run_guarded_cons trivial rfl ?_
  exact ⟨rfl, trivial⟩

end Sample

end HistoryService

end UniversalLogin
