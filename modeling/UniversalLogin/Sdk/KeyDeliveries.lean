import UniversalLogin.Sdk.BlockchainObserver

/-!
# KeyDeliveries

How often the observer calls a callback for the event of a key. It calls it once for each answer
that the event is in. An event is in two answers if its block was the last one when it was answered
and when the fetch ended, and in none if its block was mined between the two and was not the last
one any more. It is in no answer at all for a filter without a key (`deliversOnce_iff`).
-/

namespace UniversalLogin

open Transition

namespace BlockchainObserver

/-! ## What is to be delivered -/

section
variable (resolveName : JsString → Option Address)

/-- A log of the contract, of the type and of the key that a subscription is for. -/
def Wants (s : KeySubscription) (log : ChainLog) : Prop :=
  s.filter.contractAddress.bind resolveName = some log.address ∧
    ∃ key purpose, s.eventType.args log.event = some (key, purpose) ∧
      (s.filter.key = none ∨ s.filter.key = some (hexlify (packAddress key)))

variable (observer : BlockchainObserver)

/-- It wants a log of a block that was mined after the start and after it was made. -/
structure Due (s : KeySubscription) (log : ChainLog) : Prop where
  subscribed : s ∈ observer.subscriptions
  mined : log ∈ observer.logs
  wants : Wants resolveName s log
  started : observer.startBlock < log.blockNumber
  made : s.madeAt < log.blockNumber

/-- A log that is due is delivered once, if a complete fetch began after its block. -/
def DeliversOnce : Prop :=
  ∀ s log, Due resolveName observer s log → log.blockNumber ≤ observer.complete →
    observer.delivered.count (s.callback, log) = 1

/-- The logs for a subscription are answered up to a block. -/
def Answered (answers : List LogsAnswer) (s : KeySubscription) (blockNumber : Nat) : Prop :=
  ∃ answer ∈ answers, answer.eventType = s.eventType ∧ answer.filter = s.filter ∧
    blockNumber ≤ answer.blockNumber

/-- When the logs of a filter are answered, none of those that are emitted and due was mined before
the last complete fetch began. When a fetch ends, each log that is due, and was mined between the
beginnings of the last complete fetch and of this one, is for a filter with a key; and it was mined
before the last complete fetch ended exactly if that fetch was answered for the filter after it. -/
def Timely : Action → Prop
  | .logs =>
    ∀ type filter filters logs, observer.phase = .fetching type (filter :: filters) →
      getLogs resolveName observer type filter = some logs →
      ∀ s, ∀ log ∈ parsedLogs type logs, s.eventType = type → s.filter = filter →
        s.filter.key ≠ none → Due resolveName observer s log →
        observer.complete < log.blockNumber
  | .blockNumber =>
    observer.phase = .fetching .keyRemoved [] →
      ∀ s log, Due resolveName observer s log →
        observer.complete < log.blockNumber → log.blockNumber ≤ observer.fetchBlock →
        s.filter.key ≠ none ∧
          (log.blockNumber < observer.lastBlock ↔ Answered observer.previous s log.blockNumber)
  | _ => True

end

section
variable {resolveName : JsString → Option Address}

/-- A log that is wanted is answered if it is not before the window. -/
theorem Wants.mem_getLogs {observer : BlockchainObserver} {logs : List ChainLog}
    (h : Wants resolveName s log) (hmined : log ∈ observer.logs)
    (hlogs : getLogs resolveName observer s.eventType s.filter = some logs) :
    log ∈ logs ↔ observer.lastBlock ≤ log.blockNumber := by
  obtain ⟨haddress, key, purpose, hargs, _⟩ := h
  rw [BlockchainObserver.mem_getLogs hlogs]
  constructor
  · exact fun h => h.2.1
  · intro hblock
    refine ⟨hmined, hblock, by simp [hargs], fun contractAddress hcontract => ?_⟩
    rwa [hcontract, Option.bind_some] at haddress

/-- A log that is wanted and parsed is emitted exactly for a filter with a key. -/
theorem Wants.passes_iff {logs : List ChainLog} (h : Wants resolveName s log)
    (hparsed : log ∈ parsedLogs s.eventType logs) :
    passes s.eventType s.filter log ↔ s.filter.key ≠ none := by
  obtain ⟨_, key, purpose, hargs, hkey⟩ := h
  have hparses : (parseArgs s.eventType log.event).isSome :=
    List.mem_takeWhile_imp
      (p := fun log : ChainLog => (parseArgs s.eventType log.event).isSome) hparsed
  obtain ⟨info, hinfo⟩ := Option.isSome_iff_exists.mp hparses
  have hinfoKey : info.key = hexlify (packAddress key) := by
    rw [parseArgs, hargs] at hinfo
    obtain ⟨_, hinfo⟩ := Option.ite_none_right_eq_some.mp hinfo
    cases hinfo
    rfl
  rw [passes, hinfo, Option.any_some, decide_eq_true_eq, hinfoKey]
  rcases hkey with hkey | hkey <;> simp [hkey]

/-! ## What holds in every run -/

variable {observer observer' : BlockchainObserver}

/-- Every subscription has its callback at the emitter of its filter, and nowhere else. -/
structure Registered (observer : BlockchainObserver) : Prop where
  filters : observer.emitters.filters.Nodup
  fresh : ∀ filter type, ∀ c ∈ observer.emitters.callbacks filter (.key type),
    c < observer.subscriptions.length
  callback : ∀ s ∈ observer.subscriptions, s.callback < observer.subscriptions.length
  filter : ∀ s ∈ observer.subscriptions, s.filter ∈ observer.emitters.filters
  count : ∀ s ∈ observer.subscriptions, ∀ filter type,
    (observer.emitters.callbacks filter (.key type)).count s.callback =
      if filter = s.filter ∧ s.eventType = type then 1 else 0

/-- The blocks that the observer has seen. -/
structure Recorded (observer : BlockchainObserver) : Prop where
  mined : ∀ log ∈ observer.logs, log.blockNumber ≤ observer.blockNumber
  nodup : observer.logs.Nodup
  delivered : ∀ d ∈ observer.delivered,
    d.1 < observer.subscriptions.length ∧ d.2 ∈ observer.logs
  lastBlock : observer.lastBlock ≤ observer.blockNumber
  complete : observer.complete ≤ observer.blockNumber
  answers : ∀ answer ∈ observer.answers, answer.blockNumber ≤ observer.blockNumber
  previous : ∀ answer ∈ observer.previous, answer.blockNumber ≤ observer.lastBlock

/-- How far a fetch is. The logs for a subscription that is older than the fetch are answered or
will be. -/
structure Fetching (observer : BlockchainObserver) (type : KeyEventType) (filters : List Filter) :
    Prop where
  lastBlock : observer.lastBlock ≤ observer.fetchBlock
  complete : observer.complete ≤ observer.fetchBlock
  blockNumber : observer.fetchBlock ≤ observer.blockNumber
  nodup : filters.Nodup
  ahead : ∀ answer ∈ observer.answers, answer.eventType = type → answer.filter ∉ filters
  keyRemoved : type = .keyAdded → ∀ answer ∈ observer.answers, answer.eventType = .keyAdded
  pending : ∀ s ∈ observer.subscriptions, s.madeAt < observer.fetchBlock → s.eventType = type →
    s.filter ∈ filters ∨ Answered observer.answers s observer.fetchBlock
  keyAdded : type = .keyRemoved → ∀ s ∈ observer.subscriptions, s.madeAt < observer.fetchBlock →
    s.eventType = .keyAdded → Answered observer.answers s observer.fetchBlock

def Progress (observer : BlockchainObserver) : Prop :=
  match observer.phase with
  | .stopped | .idle => observer.answers = []
  | .fetching type filters => Fetching observer type filters
  | .failed => True

instance {answers : List LogsAnswer} {s : KeySubscription} {blockNumber : Nat} :
    Decidable (Answered answers s blockNumber) :=
  inferInstanceAs (Decidable (∃ answer ∈ answers, answer.eventType = s.eventType ∧
    answer.filter = s.filter ∧ blockNumber ≤ answer.blockNumber))

/-- How often the logs of a block are answered in two fetches for a subscription to a key. The
second fetch begins at `lastBlock`. -/
def timesAnswered (lastBlock : Nat) (previous answers : List LogsAnswer) (s : KeySubscription)
    (n : Nat) : Nat :=
  if s.filter.key = none then 0
  else (if Answered previous s n then 1 else 0) +
    if lastBlock ≤ n ∧ Answered answers s n then 1 else 0

/-- A log that is due is delivered as often as it is in an answer of this fetch or the one before.
-/
def Counted (resolveName : JsString → Option Address) (observer : BlockchainObserver) : Prop :=
  ∀ s log, Due resolveName observer s log → observer.complete < log.blockNumber →
    observer.delivered.count (s.callback, log) =
      timesAnswered observer.lastBlock observer.previous observer.answers s log.blockNumber

structure Inv (resolveName : JsString → Option Address) (observer : BlockchainObserver) : Prop where
  registered : Registered observer
  recorded : Recorded observer
  progress : Progress observer
  counted : observer.phase ≠ .failed → Counted resolveName observer

theorem inv_initial : Inv resolveName initial where
  registered := ⟨by simp [initial, Emitters.filters],
    by simp [initial, Emitters.callbacks, Emitters.listeners], by simp [initial],
    by simp [initial], by simp [initial]⟩
  recorded := ⟨by simp [initial], by simp [initial], by simp [initial], by simp [initial],
    by simp [initial], by simp [initial], by simp [initial]⟩
  progress := rfl
  counted := fun _ s log hdue => absurd hdue.subscribed (by simp [initial])

/-! ### Subscriptions -/

theorem Registered.frame (h : Registered observer)
    (hemitters : observer'.emitters = observer.emitters)
    (hsubscriptions : observer'.subscriptions = observer.subscriptions) :
    Registered observer' where
  filters := hemitters ▸ h.filters
  fresh := by
    rw [hemitters, hsubscriptions]
    exact h.fresh
  callback := by
    rw [hsubscriptions]
    exact h.callback
  filter := by
    rw [hemitters, hsubscriptions]
    exact h.filter
  count := by
    rw [hemitters, hsubscriptions]
    exact h.count

theorem Registered.subscribe (h : Registered observer) (eventType : KeyEventType)
    (filter : Filter) : Registered (observer.subscribe eventType filter) where
  filters := Emitters.nodup_filters_subscribe h.filters
  fresh := by
    intro filter' type c hc
    simp only [BlockchainObserver.subscribe, Emitters.callbacks_subscribe, List.mem_append] at hc
    simp only [BlockchainObserver.subscribe, List.length_append, List.length_singleton]
    rcases hc with hc | hc
    · exact Nat.lt_succ_of_lt (h.fresh _ _ c hc)
    · split at hc
      · rw [List.mem_singleton.mp hc]
        exact Nat.lt_succ_self _
      · cases hc
  callback := by
    intro s hs
    simp only [BlockchainObserver.subscribe, List.length_append, List.length_singleton]
    rcases List.mem_append.mp hs with hs | hs
    · exact Nat.lt_succ_of_lt (h.callback s hs)
    · rw [List.mem_singleton.mp hs]
      exact Nat.lt_succ_self _
  filter := by
    intro s hs
    refine Emitters.mem_filters_subscribe.mpr ?_
    rcases List.mem_append.mp hs with hs | hs
    · exact .inl (h.filter s hs)
    · rw [List.mem_singleton.mp hs]
      exact .inr rfl
  count := by
    intro s hs filter' type
    simp only [BlockchainObserver.subscribe, Emitters.callbacks_subscribe, List.count_append]
    rcases List.mem_append.mp hs with hs | hs
    · have hne : observer.subscriptions.length ≠ s.callback := (h.callback s hs).ne'
      rw [h.count s hs]
      by_cases hnew : filter' = filter.lowerKey ∧ eventType = type <;> simp [hnew, hne]
    · obtain rfl := List.mem_singleton.mp hs
      have hold : (observer.emitters.callbacks filter' (.key type)).count
          observer.subscriptions.length = 0 :=
        List.count_eq_zero.mpr fun hmem => (h.fresh _ _ _ hmem).false
      simp only [hold, EventType.key.injEq]
      by_cases hnew : filter' = filter.lowerKey ∧ eventType = type <;> simp [hnew]

theorem Due.of_subscribe (hrecorded : Recorded observer)
    (h : Due resolveName (observer.subscribe eventType filter) s log) :
    Due resolveName observer s log := by
  refine ⟨?_, h.mined, h.wants, h.started, h.made⟩
  rcases List.mem_append.mp h.subscribed with hs | hs
  · exact hs
  · obtain rfl := List.mem_singleton.mp hs
    exact absurd (hrecorded.mined log h.mined) (Nat.not_le_of_lt h.made)

theorem Recorded.subscribe (h : Recorded observer) (eventType : KeyEventType) (filter : Filter) :
    Recorded (observer.subscribe eventType filter) where
  mined := h.mined
  nodup := h.nodup
  delivered := by
    intro d hd
    simp only [BlockchainObserver.subscribe, List.length_append, List.length_singleton]
    exact ⟨Nat.lt_succ_of_lt (h.delivered d hd).1, (h.delivered d hd).2⟩
  lastBlock := h.lastBlock
  complete := h.complete
  answers := h.answers
  previous := h.previous

/-- A new subscription is not older than the fetch. -/
theorem Fetching.subscribe (h : Fetching observer type filters) (eventType : KeyEventType)
    (filter : Filter) : Fetching (observer.subscribe eventType filter) type filters where
  lastBlock := h.lastBlock
  complete := h.complete
  blockNumber := h.blockNumber
  nodup := h.nodup
  ahead := h.ahead
  keyRemoved := h.keyRemoved
  pending := by
    intro s hs hmade
    rcases List.mem_append.mp hs with hs | hs
    · exact h.pending s hs hmade
    · obtain rfl := List.mem_singleton.mp hs
      exact absurd h.blockNumber (Nat.not_le_of_lt hmade)
  keyAdded := by
    intro htype s hs hmade
    rcases List.mem_append.mp hs with hs | hs
    · exact h.keyAdded htype s hs hmade
    · obtain rfl := List.mem_singleton.mp hs
      exact absurd h.blockNumber (Nat.not_le_of_lt hmade)

theorem Inv.subscribe (h : Inv resolveName observer) (eventType : KeyEventType)
    (filter : Filter) : Inv resolveName (observer.subscribe eventType filter) where
  registered := h.registered.subscribe eventType filter
  recorded := h.recorded.subscribe eventType filter
  progress := by
    have hprogress := h.progress
    simp only [Progress, BlockchainObserver.subscribe] at hprogress ⊢
    split at hprogress
    · exact hprogress
    · exact hprogress
    · exact hprogress.subscribe eventType filter
    · trivial
  counted := fun hphase s log hdue => h.counted hphase s log (hdue.of_subscribe h.recorded)

theorem DeliversOnce.subscribe (hrecorded : Recorded observer)
    (h : DeliversOnce resolveName observer) :
    DeliversOnce resolveName (observer.subscribe eventType filter) :=
  fun s log hdue => h s log (hdue.of_subscribe hrecorded)

/-! ### Blocks -/

theorem mem_blockLogs {log : ChainLog} (h : log ∈ blockLogs n events) :
    log.blockNumber = n := by
  obtain ⟨_, _, rfl⟩ := List.mem_map.mp h
  rfl

theorem nodup_blockLogs : (blockLogs n events).Nodup := by
  refine List.Nodup.of_map ChainLog.logIndex ?_
  have hindex : (blockLogs n events).map ChainLog.logIndex =
      events.zipIdx.map Prod.snd := by
    simp [blockLogs, Function.comp_def]
  rw [hindex, List.zipIdx_map_snd]
  exact List.nodup_range'

theorem Due.of_mine (h : Due resolveName (observer.mine events) s log) :
    Due resolveName observer s log ∨ log.blockNumber = observer.blockNumber + 1 := by
  rcases List.mem_append.mp h.mined with hmined | hmined
  · exact .inl ⟨h.subscribed, hmined, h.wants, h.started, h.made⟩
  · exact .inr (mem_blockLogs hmined)

theorem Recorded.mine (h : Recorded observer) (events : List (Address × Event)) :
    Recorded (observer.mine events) where
  mined := by
    intro log hlog
    rcases List.mem_append.mp hlog with hlog | hlog
    · exact Nat.le_succ_of_le (h.mined log hlog)
    · exact (mem_blockLogs hlog).le
  nodup := by
    refine List.nodup_append.mpr ⟨h.nodup, nodup_blockLogs, ?_⟩
    rintro log hlog _ hnew rfl
    have := h.mined log hlog
    have := mem_blockLogs hnew
    omega
  delivered := fun d hd =>
    ⟨(h.delivered d hd).1, List.mem_append_left _ (h.delivered d hd).2⟩
  lastBlock := Nat.le_succ_of_le h.lastBlock
  complete := Nat.le_succ_of_le h.complete
  answers := fun answer hanswer => Nat.le_succ_of_le (h.answers answer hanswer)
  previous := h.previous

theorem Fetching.mine (h : Fetching observer type filters) (events : List (Address × Event)) :
    Fetching (observer.mine events) type filters :=
  { h with blockNumber := Nat.le_succ_of_le h.blockNumber }

theorem not_answered {answers : List LogsAnswer}
    (h : ∀ answer ∈ answers, answer.blockNumber < n) : ¬ Answered answers s n := by
  rintro ⟨answer, hanswer, _, _, hle⟩
  exact absurd (h answer hanswer) (Nat.not_lt_of_le hle)

/-- The events of a new block are in no answer yet. -/
theorem Recorded.count_eq_zero (h : Recorded observer)
    (hlog : observer.blockNumber < log.blockNumber) :
    observer.delivered.count (c, log) = 0 :=
  List.count_eq_zero.mpr fun hmem =>
    absurd (h.mined log (h.delivered _ hmem).2) (Nat.not_le_of_lt hlog)

theorem Inv.mine (h : Inv resolveName observer) (events : List (Address × Event)) :
    Inv resolveName (observer.mine events) where
  registered := h.registered.frame rfl rfl
  recorded := h.recorded.mine events
  progress := by
    have hprogress := h.progress
    simp only [Progress, BlockchainObserver.mine] at hprogress ⊢
    split at hprogress
    · exact hprogress
    · exact hprogress
    · exact hprogress.mine events
    · trivial
  counted := by
    intro hphase s log hdue hcomplete
    rcases hdue.of_mine with hold | hnew
    · exact h.counted hphase s log hold hcomplete
    · have hlog : observer.blockNumber < log.blockNumber := by omega
      have hprevious : ¬ Answered observer.previous s log.blockNumber :=
        not_answered fun answer hanswer =>
          ((h.recorded.previous answer hanswer).trans h.recorded.lastBlock).trans_lt hlog
      have hanswers : ¬ Answered observer.answers s log.blockNumber :=
        not_answered fun answer hanswer =>
          (h.recorded.answers answer hanswer).trans_lt hlog
      simp only [BlockchainObserver.mine]
      rw [h.recorded.count_eq_zero hlog, timesAnswered]
      simp [hprevious, hanswers]

theorem DeliversOnce.mine (hrecorded : Recorded observer) (h : DeliversOnce resolveName observer) :
    DeliversOnce resolveName (observer.mine events) := by
  intro s log hdue hcomplete
  rcases hdue.of_mine with hold | hnew
  · exact h s log hold hcomplete
  · have hle : log.blockNumber ≤ observer.blockNumber := hcomplete.trans hrecorded.complete
    omega

/-! ### Fetches -/

theorem Due.frame (h : Due resolveName observer' s log)
    (hsubscriptions : observer'.subscriptions = observer.subscriptions)
    (hlogs : observer'.logs = observer.logs)
    (hstart : observer'.startBlock = observer.startBlock) : Due resolveName observer s log :=
  ⟨hsubscriptions ▸ h.subscribed, hlogs ▸ h.mined, h.wants, hstart ▸ h.started, h.made⟩

theorem not_due_started (hrecorded : Recorded observer) :
    ¬ Due resolveName observer.started s log :=
  fun h => absurd (hrecorded.mined log h.mined) (Nat.not_le_of_lt h.started)

theorem Inv.started (h : Inv resolveName observer) (hphase : observer.phase = .stopped) :
    Inv resolveName observer.started where
  registered := h.registered.frame rfl rfl
  recorded := {
    mined := h.recorded.mined
    nodup := h.recorded.nodup
    delivered := h.recorded.delivered
    lastBlock := Nat.le_refl _
    complete := h.recorded.complete
    answers := h.recorded.answers
    previous := fun answer hanswer =>
      (h.recorded.previous answer hanswer).trans h.recorded.lastBlock }
  progress := by
    have hprogress := h.progress
    rw [Progress, hphase] at hprogress
    exact hprogress
  counted := fun _ s log hdue => absurd hdue (not_due_started h.recorded)

theorem Inv.ticked (h : Inv resolveName observer) (hphase : observer.phase = .idle) :
    Inv resolveName observer.ticked where
  registered := h.registered.frame rfl rfl
  recorded := ⟨h.recorded.mined, h.recorded.nodup, h.recorded.delivered, h.recorded.lastBlock,
    h.recorded.complete, h.recorded.answers, h.recorded.previous⟩
  progress := by
    have hanswers : observer.answers = [] := by
      have hprogress := h.progress
      rwa [Progress, hphase] at hprogress
    exact {
      lastBlock := h.recorded.lastBlock
      complete := h.recorded.complete
      blockNumber := Nat.le_refl _
      nodup := h.registered.filters
      ahead := by simp [BlockchainObserver.ticked, hanswers]
      keyRemoved := by simp [BlockchainObserver.ticked, hanswers]
      pending := fun s hs _ _ => .inl (h.registered.filter s hs)
      keyAdded := nofun }
  counted := fun _ s log hdue =>
    h.counted (by rw [hphase]; nofun) s log (hdue.frame rfl rfl rfl)

theorem Answered.append {answers : List LogsAnswer} (h : Answered answers s n)
    (answer : LogsAnswer) : Answered (answers ++ [answer]) s n := by
  obtain ⟨answer', hanswer', h⟩ := h
  exact ⟨answer', List.mem_append_left _ hanswer', h⟩

/-- The calls for a log that is due. -/
theorem Due.count_calls {logs : List ChainLog} (h : Due resolveName observer s log)
    (hregistered : Registered observer) (hnodup : logs.Nodup) :
    (observer.calls type filter logs).count (s.callback, log) =
      if log ∈ parsedLogs type logs ∧ s.eventType = type ∧ s.filter = filter ∧
        s.filter.key ≠ none
      then 1 else 0 := by
  rw [BlockchainObserver.count_calls hnodup, hregistered.count s h.subscribed]
  by_cases hmatch : s.eventType = type ∧ s.filter = filter
  · obtain ⟨rfl, rfl⟩ := hmatch
    by_cases hparsed : log ∈ parsedLogs s.eventType logs
    · have hpasses := h.wants.passes_iff hparsed
      by_cases hkey : s.filter.key = none <;> simp_all
    · simp [hparsed]
  · have hother : ¬ (filter = s.filter ∧ s.eventType = type) :=
      fun ⟨hfilter, htype⟩ => hmatch ⟨htype, hfilter.symm⟩
    rw [if_neg hother, ite_self, if_neg]
    exact fun ⟨_, htype, hfilter, _⟩ => hmatch ⟨htype, hfilter⟩

theorem Recorded.gotLogs {logs : List ChainLog} (h : Recorded observer)
    (hregistered : Registered observer)
    (hlogs : getLogs resolveName observer type filter = some logs) :
    Recorded (observer.gotLogs type filter filters logs) where
  mined := h.mined
  nodup := h.nodup
  delivered := by
    intro d hd
    rcases List.mem_append.mp hd with hd | hd
    · exact h.delivered d hd
    · obtain ⟨log, hlog, hd⟩ := List.mem_flatMap.mp hd
      split at hd
      · obtain ⟨c, hc, rfl⟩ := List.mem_map.mp hd
        exact ⟨hregistered.fresh _ _ c hc, ((mem_getLogs hlogs).mp (mem_parsedLogs hlog)).1⟩
      · cases hd
  lastBlock := h.lastBlock
  complete := h.complete
  answers := by
    intro answer hanswer
    rcases List.mem_append.mp hanswer with hanswer | hanswer
    · exact h.answers answer hanswer
    · rw [List.mem_singleton.mp hanswer]
      exact Nat.le_refl _
  previous := h.previous

theorem Fetching.gotLogs {logs : List ChainLog}
    (h : Fetching observer type (filter :: filters)) :
    Fetching (observer.gotLogs type filter filters logs) type filters where
  lastBlock := h.lastBlock
  complete := h.complete
  blockNumber := h.blockNumber
  nodup := h.nodup.of_cons
  ahead := by
    intro answer hanswer htype
    rcases List.mem_append.mp hanswer with hanswer | hanswer
    · exact fun hmem => h.ahead answer hanswer htype (List.mem_cons_of_mem _ hmem)
    · rw [List.mem_singleton.mp hanswer]
      exact (List.nodup_cons.mp h.nodup).1
  keyRemoved := by
    intro htype answer hanswer
    rcases List.mem_append.mp hanswer with hanswer | hanswer
    · exact h.keyRemoved htype answer hanswer
    · rw [List.mem_singleton.mp hanswer]
      exact htype
  pending := by
    intro s hs hmade htype
    rcases h.pending s hs hmade htype with hmem | hanswered
    · rcases List.mem_cons.mp hmem with hfilter | hmem
      · exact .inr ⟨_, List.mem_append_right _ (List.mem_singleton_self _), htype.symm,
          hfilter.symm, h.blockNumber⟩
      · exact .inl hmem
    · exact .inr (hanswered.append _)
  keyAdded := fun htype s hs hmade hadded => (h.keyAdded htype s hs hmade hadded).append _

/-- The answer is counted for the subscriptions to its type and filter, and for no others. -/
theorem Counted.gotLogs {logs : List ChainLog} (h : Counted resolveName observer)
    (hregistered : Registered observer) (hrecorded : Recorded observer)
    (hfetching : Fetching observer type (filter :: filters))
    (hlogs : getLogs resolveName observer type filter = some logs)
    (hparsed : parsedLogs type logs = logs) :
    Counted resolveName (observer.gotLogs type filter filters logs) := by
  intro s log hdue' hcomplete
  have hdue : Due resolveName observer s log := hdue'.frame rfl rfl rfl
  simp only [BlockchainObserver.gotLogs] at hcomplete ⊢
  rw [List.count_append, h s log hdue hcomplete,
    hdue.count_calls hregistered (nodup_getLogs hlogs hrecorded.nodup), hparsed, timesAnswered,
    timesAnswered]
  by_cases hmatch : s.eventType = type ∧ s.filter = filter
  · obtain ⟨rfl, rfl⟩ := hmatch
    have hbefore : ¬ Answered observer.answers s log.blockNumber := by
      rintro ⟨answer, hanswer, htype, hfilter, _⟩
      exact hfetching.ahead answer hanswer htype (hfilter ▸ List.mem_cons_self)
    have hafter : Answered (observer.answers ++ [⟨s.eventType, s.filter, observer.blockNumber⟩]) s
        log.blockNumber :=
      ⟨_, List.mem_append_right _ (List.mem_singleton_self _), rfl, rfl,
        hrecorded.mined log hdue.mined⟩
    have hwindow := hdue.wants.mem_getLogs hdue.mined hlogs
    by_cases hkey : s.filter.key = none <;> simp [hkey, hbefore, hafter, hwindow]
  · have hsame : Answered (observer.answers ++ [⟨type, filter, observer.blockNumber⟩]) s
        log.blockNumber ↔ Answered observer.answers s log.blockNumber := by
      refine ⟨?_, fun hanswered => hanswered.append _⟩
      rintro ⟨answer, hanswer, htype, hfilter, hle⟩
      rcases List.mem_append.mp hanswer with hanswer | hanswer
      · exact ⟨answer, hanswer, htype, hfilter, hle⟩
      · rw [List.mem_singleton.mp hanswer] at htype hfilter
        exact absurd ⟨htype.symm, hfilter.symm⟩ hmatch
    have hother : ¬ (log ∈ logs ∧ s.eventType = type ∧ s.filter = filter ∧
        s.filter.key ≠ none) :=
      fun ⟨_, htype, hfilter, _⟩ => hmatch ⟨htype, hfilter⟩
    rw [if_neg hother, Nat.add_zero]
    simp only [hsame]

theorem Inv.fetching (h : Inv resolveName observer)
    (hphase : observer.phase = .fetching type filters) : Fetching observer type filters := by
  have hprogress := h.progress
  rwa [Progress, hphase] at hprogress

theorem Inv.counted_of_fetching (h : Inv resolveName observer)
    (hphase : observer.phase = .fetching type filters) : Counted resolveName observer :=
  h.counted (by rw [hphase]; nofun)

theorem Inv.gotLogs {logs : List ChainLog} (h : Inv resolveName observer)
    (hphase : observer.phase = .fetching type (filter :: filters))
    (hlogs : getLogs resolveName observer type filter = some logs) :
    Inv resolveName (observer.gotLogs type filter filters logs) where
  registered := h.registered.frame rfl rfl
  recorded := h.recorded.gotLogs h.registered hlogs
  progress := by
    by_cases hparsed : parsedLogs type logs = logs
    · have hfetching : Fetching (observer.gotLogs type filter filters logs) type filters :=
        (h.fetching hphase).gotLogs
      simpa only [Progress, BlockchainObserver.gotLogs, if_pos hparsed] using hfetching
    · simp only [Progress, BlockchainObserver.gotLogs, if_neg hparsed]
  counted := by
    intro hfailed
    refine (h.counted_of_fetching hphase).gotLogs h.registered h.recorded (h.fetching hphase) hlogs
      (Decidable.byContradiction fun hparsed => hfailed ?_)
    exact if_neg hparsed

theorem Inv.failed (h : Inv resolveName observer) :
    Inv resolveName { observer with phase := .failed } where
  registered := h.registered.frame rfl rfl
  recorded := ⟨h.recorded.mined, h.recorded.nodup, h.recorded.delivered, h.recorded.lastBlock,
    h.recorded.complete, h.recorded.answers, h.recorded.previous⟩
  progress := trivial
  counted := fun hphase => absurd rfl hphase

/-- All logs for the subscriptions that are older than the fetch are answered when it ends. -/
theorem Fetching.answered (h : Fetching observer .keyRemoved [])
    (hs : s ∈ observer.subscriptions) (hmade : s.madeAt < observer.fetchBlock) :
    Answered observer.answers s observer.fetchBlock := by
  cases htype : s.eventType with
  | keyAdded => exact h.keyAdded rfl s hs hmade htype
  | keyRemoved =>
    rcases h.pending s hs hmade htype with hmem | hanswered
    · cases hmem
    · exact hanswered

theorem Inv.fetchedKeyAdded (h : Inv resolveName observer)
    (hphase : observer.phase = .fetching .keyAdded []) :
    Inv resolveName observer.fetchedKeyAdded where
  registered := h.registered.frame rfl rfl
  recorded := ⟨h.recorded.mined, h.recorded.nodup, h.recorded.delivered, h.recorded.lastBlock,
    h.recorded.complete, h.recorded.answers, h.recorded.previous⟩
  progress := by
    have hfetching := h.fetching hphase
    exact {
      lastBlock := hfetching.lastBlock
      complete := hfetching.complete
      blockNumber := hfetching.blockNumber
      nodup := h.registered.filters
      ahead := by
        intro answer hanswer htype
        rw [hfetching.keyRemoved rfl answer hanswer] at htype
        cases htype
      keyRemoved := nofun
      pending := fun s hs _ _ => .inl (h.registered.filter s hs)
      keyAdded := by
        intro _ s hs hmade htype
        rcases hfetching.pending s hs hmade htype with hmem | hanswered
        · cases hmem
        · exact hanswered }
  counted := fun _ s log hdue =>
    h.counted_of_fetching hphase s log (hdue.frame rfl rfl rfl)

theorem Inv.fetchedEvents (h : Inv resolveName observer)
    (hphase : observer.phase = .fetching .keyRemoved []) :
    Inv resolveName observer.fetchedEvents where
  registered := h.registered.frame rfl rfl
  recorded := {
    mined := h.recorded.mined
    nodup := h.recorded.nodup
    delivered := h.recorded.delivered
    lastBlock := Nat.le_refl _
    complete := (h.fetching hphase).blockNumber
    answers := nofun
    previous := h.recorded.answers }
  progress := rfl
  counted := by
    intro _ s log hdue hlog
    have hfetching := h.fetching hphase
    simp only [BlockchainObserver.fetchedEvents] at hlog ⊢
    have hprevious : ¬ Answered observer.previous s log.blockNumber :=
      not_answered fun answer hanswer =>
        ((h.recorded.previous answer hanswer).trans hfetching.lastBlock).trans_lt hlog
    have hnone : ¬ Answered [] s log.blockNumber := not_answered nofun
    rw [h.counted_of_fetching hphase s log (hdue.frame rfl rfl rfl)
      (hfetching.complete.trans_lt hlog), timesAnswered, timesAnswered]
    simp [hprevious, hnone, (hfetching.lastBlock.trans_lt hlog).le]

/-! ## Runs -/

theorem Inv.step (h : Inv resolveName observer)
    (hstep : step resolveName observer a = some observer') : Inv resolveName observer' := by
  cases a with
  | subscribe eventType filter =>
    cases hstep
    exact h.subscribe eventType filter
  | mine events =>
    cases hstep
    exact h.mine events
  | start =>
    obtain ⟨hphase, rfl⟩ := step_start_iff.mp hstep
    exact h.started hphase
  | tick =>
    obtain ⟨hphase, rfl⟩ := step_tick_iff.mp hstep
    exact h.ticked hphase
  | logs =>
    obtain ⟨type, filter, filters, hphase, ⟨logs, hlogs, rfl⟩ | ⟨_, rfl⟩⟩ :=
      step_logs_iff.mp hstep
    · exact h.gotLogs hphase hlogs
    · exact h.failed
  | fetchKeyRemoved =>
    obtain ⟨hphase, rfl⟩ := step_fetchKeyRemoved_iff.mp hstep
    exact h.fetchedKeyAdded hphase
  | blockNumber =>
    obtain ⟨hphase, rfl⟩ := step_blockNumber_iff.mp hstep
    exact h.fetchedEvents hphase

/-! ### Deliveries -/

theorem DeliversOnce.frame (h : DeliversOnce resolveName observer)
    (hsubscriptions : observer'.subscriptions = observer.subscriptions)
    (hlogs : observer'.logs = observer.logs)
    (hstart : observer'.startBlock = observer.startBlock)
    (hcomplete : observer'.complete = observer.complete)
    (hdelivered : observer'.delivered = observer.delivered) :
    DeliversOnce resolveName observer' := by
  intro s log hdue hle
  rw [hdelivered]
  exact h s log (hdue.frame hsubscriptions hlogs hstart) (hcomplete ▸ hle)

/-- An answer keeps the deliveries if it has nothing that is due and was to be delivered before. -/
theorem deliversOnce_gotLogs_iff {logs : List ChainLog} (h : Inv resolveName observer)
    (hdelivers : DeliversOnce resolveName observer)
    (hlogs : getLogs resolveName observer type filter = some logs) :
    DeliversOnce resolveName (observer.gotLogs type filter filters logs) ↔
      ∀ s, ∀ log ∈ parsedLogs type logs, s.eventType = type → s.filter = filter →
        s.filter.key ≠ none → Due resolveName observer s log →
        observer.complete < log.blockNumber := by
  have hcount (s : KeySubscription) (log : ChainLog) (hdue : Due resolveName observer s log)
      (hcomplete : log.blockNumber ≤ observer.complete) :
      (observer.gotLogs type filter filters logs).delivered.count (s.callback, log) = 1 ↔
        ¬ (log ∈ parsedLogs type logs ∧ s.eventType = type ∧ s.filter = filter ∧
          s.filter.key ≠ none) := by
    simp only [BlockchainObserver.gotLogs]
    rw [List.count_append, hdelivers s log hdue hcomplete,
      hdue.count_calls h.registered (nodup_getLogs hlogs h.recorded.nodup)]
    split
    · next hin => exact iff_of_false (by decide) fun hout => hout hin
    · next hout => exact iff_of_true rfl hout
  constructor
  · intro hkeep s log hparsed htype hfilter hkey hdue
    refine Nat.lt_of_not_le fun hcomplete => ?_
    have hdue' : Due resolveName (observer.gotLogs type filter filters logs) s log :=
      hdue.frame rfl rfl rfl
    exact (hcount s log hdue hcomplete).mp (hkeep s log hdue' hcomplete)
      ⟨hparsed, htype, hfilter, hkey⟩
  · intro htimely s log hdue' hcomplete
    have hdue : Due resolveName observer s log := hdue'.frame rfl rfl rfl
    refine (hcount s log hdue hcomplete).mpr ?_
    rintro ⟨hparsed, htype, hfilter, hkey⟩
    exact absurd (htimely s log hparsed htype hfilter hkey hdue) (Nat.not_lt_of_le hcomplete)

theorem Answered.of_le {answers : List LogsAnswer} (h : Answered answers s m) (hle : n ≤ m) :
    Answered answers s n := by
  obtain ⟨answer, hanswer, htype, hfilter, hm⟩ := h
  exact ⟨answer, hanswer, htype, hfilter, hle.trans hm⟩

theorem timesAnswered_eq_one_iff {previous answers : List LogsAnswer}
    (h : Answered answers s n) :
    timesAnswered m previous answers s n = 1 ↔
      s.filter.key ≠ none ∧ (n < m ↔ Answered previous s n) := by
  rw [timesAnswered, ← Nat.not_le]
  by_cases hkey : s.filter.key = none
  · simp [hkey]
  · by_cases hprevious : Answered previous s n <;> by_cases hlast : m ≤ n <;>
      simp [hkey, hprevious, hlast, h]

/-- The end of a fetch keeps the deliveries if what is due now was in exactly one answer. -/
theorem deliversOnce_fetchedEvents_iff (h : Inv resolveName observer)
    (hdelivers : DeliversOnce resolveName observer)
    (hphase : observer.phase = .fetching .keyRemoved []) :
    DeliversOnce resolveName observer.fetchedEvents ↔
      ∀ s log, Due resolveName observer s log →
        observer.complete < log.blockNumber → log.blockNumber ≤ observer.fetchBlock →
        s.filter.key ≠ none ∧
          (log.blockNumber < observer.lastBlock ↔
            Answered observer.previous s log.blockNumber) := by
  have hcount (s : KeySubscription) (log : ChainLog) (hdue : Due resolveName observer s log)
      (hcomplete : observer.complete < log.blockNumber)
      (hfetch : log.blockNumber ≤ observer.fetchBlock) :
      observer.delivered.count (s.callback, log) = 1 ↔
        s.filter.key ≠ none ∧
          (log.blockNumber < observer.lastBlock ↔
            Answered observer.previous s log.blockNumber) := by
    have hanswered := (h.fetching hphase).answered hdue.subscribed (hdue.made.trans_le hfetch)
    rw [h.counted_of_fetching hphase s log hdue hcomplete]
    exact timesAnswered_eq_one_iff (hanswered.of_le hfetch)
  constructor
  · intro hkeep s log hdue hcomplete hfetch
    have hdue' : Due resolveName observer.fetchedEvents s log := hdue.frame rfl rfl rfl
    exact (hcount s log hdue hcomplete hfetch).mp (hkeep s log hdue' hfetch)
  · intro htimely s log hdue' hfetch
    have hdue : Due resolveName observer s log := hdue'.frame rfl rfl rfl
    by_cases hcomplete : log.blockNumber ≤ observer.complete
    · exact hdelivers s log hdue hcomplete
    · have hcomplete := Nat.lt_of_not_le hcomplete
      exact (hcount s log hdue hcomplete hfetch).mpr (htimely s log hdue hcomplete hfetch)

theorem step_exact (h : Inv resolveName observer) (hdelivers : DeliversOnce resolveName observer)
    (a : Action) :
    (∀ observer', step resolveName observer a = some observer' →
        DeliversOnce resolveName observer') ↔
      Timely resolveName observer a := by
  cases a with
  | subscribe eventType filter =>
    refine iff_of_true (fun _ hstep => ?_) trivial
    cases hstep
    exact hdelivers.subscribe h.recorded
  | mine events =>
    refine iff_of_true (fun _ hstep => ?_) trivial
    cases hstep
    exact hdelivers.mine h.recorded
  | start =>
    refine iff_of_true (fun _ hstep => ?_) trivial
    obtain ⟨_, rfl⟩ := step_start_iff.mp hstep
    exact fun _ _ hdue => absurd hdue (not_due_started h.recorded)
  | tick =>
    refine iff_of_true (fun _ hstep => ?_) trivial
    obtain ⟨_, rfl⟩ := step_tick_iff.mp hstep
    exact hdelivers.frame rfl rfl rfl rfl rfl
  | fetchKeyRemoved =>
    refine iff_of_true (fun _ hstep => ?_) trivial
    obtain ⟨_, rfl⟩ := step_fetchKeyRemoved_iff.mp hstep
    exact hdelivers.frame rfl rfl rfl rfl rfl
  | logs =>
    constructor
    · intro hkeep type filter filters logs hphase hlogs
      exact (deliversOnce_gotLogs_iff h hdelivers hlogs).mp
        (hkeep _ (step_logs_iff.mpr ⟨type, filter, filters, hphase, .inl ⟨logs, hlogs, rfl⟩⟩))
    · intro htimely observer' hstep
      obtain ⟨type, filter, filters, hphase, ⟨logs, hlogs, rfl⟩ | ⟨_, rfl⟩⟩ :=
        step_logs_iff.mp hstep
      · exact (deliversOnce_gotLogs_iff h hdelivers hlogs).mpr
          (htimely type filter filters logs hphase hlogs)
      · exact hdelivers.frame rfl rfl rfl rfl rfl
  | blockNumber =>
    constructor
    · intro hkeep hphase
      exact (deliversOnce_fetchedEvents_iff h hdelivers hphase).mp
        (hkeep _ (step_blockNumber_iff.mpr ⟨hphase, rfl⟩))
    · intro htimely observer' hstep
      obtain ⟨hphase, rfl⟩ := step_blockNumber_iff.mp hstep
      exact (deliversOnce_fetchedEvents_iff h hdelivers hphase).mpr (htimely hphase)

/-- All along a run the logs that are due are delivered once exactly if every answer and every end
of a fetch is timely. -/
theorem deliversOnce_iff (resolveName : JsString → Option Address) (trace : List Action) :
    Always (step resolveName) (DeliversOnce resolveName) initial trace ↔
      Guarded (step resolveName) (Timely resolveName) initial trace :=
  always_iff_guarded (I := Inv resolveName) (fun _ _ _ h hstep => h.step hstep)
    (fun _ a h hdelivers => step_exact h hdelivers a) inv_initial
    fun _ _ hdue => absurd hdue.subscribed (List.not_mem_nil)

end

end BlockchainObserver

namespace Sample

/-- The filter of a contract. -/
def contractFilter (contract : Address) : Filter :=
  [("contractAddress", hexlify (packAddress contract))]

/-- The filter of a key of a contract. -/
def keyFilter (contract key : Address) : Filter :=
  contractFilter contract ++ [("key", hexlify (packAddress key))]

/-- A whole fetch for one filter. -/
def fetch : List BlockchainObserver.Action :=
  [.tick, .logs, .fetchKeyRemoved, .logs, .blockNumber]

/-- The log of a key that is added in a block. -/
def addedLog (blockNumber : Nat) : ChainLog := ⟨blockNumber, 0, 5, .keyAdded 7 1⟩

def addedSubscription (filter : Filter) : KeySubscription := ⟨0, .keyAdded, filter, 0⟩

end Sample

namespace BlockchainObserver

open Sample

set_option maxRecDepth 20000 in
/-- The event of the last block is delivered by every fetch, that of a block between an answer and
the end of its fetch is not delivered, and without a key nothing is. -/
theorem not_deliversOnce_samples :
    ¬ Always (step toAddress) (DeliversOnce toAddress) initial
        ([.start, .subscribe .keyAdded (keyFilter 5 7), .mine [(5, .keyAdded 7 1)]] ++ fetch ++
          [.tick, .logs]) ∧
      ¬ Always (step toAddress) (DeliversOnce toAddress) initial
        ([.start, .subscribe .keyAdded (keyFilter 5 7), .tick, .logs,
          .mine [(5, .keyAdded 7 1)], .mine [], .fetchKeyRemoved, .logs, .blockNumber] ++ fetch) ∧
      ¬ Always (step toAddress) (DeliversOnce toAddress) initial
        ([.start, .subscribe .keyAdded (contractFilter 5), .mine [(5, .keyAdded 7 1)]] ++
          fetch) := by
  refine ⟨fun h => ?_, fun h => ?_, fun h => ?_⟩
  · have hcount := h.run rfl (addedSubscription (keyFilter 5 7)) (addedLog 1)
      ⟨by decide, by decide, ⟨by decide, 7, 1, rfl, by decide⟩, by decide, by decide⟩ (by decide)
    exact absurd hcount (by decide)
  · have hcount := h.run rfl (addedSubscription (keyFilter 5 7)) (addedLog 1)
      ⟨by decide, by decide, ⟨by decide, 7, 1, rfl, by decide⟩, by decide, by decide⟩ (by decide)
    exact absurd hcount (by decide)
  · have hcount := h.run rfl (addedSubscription (contractFilter 5)) (addedLog 1)
      ⟨by decide, by decide, ⟨by decide, 7, 1, rfl, by decide⟩, by decide, by decide⟩ (by decide)
    exact absurd hcount (by decide)

end BlockchainObserver

end UniversalLogin
