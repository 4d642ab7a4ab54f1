import UniversalLogin.Commons.MessageSignatures

/-!
# ObserverBase

The subscriptions of an observer (`ObserverBase.ts`). There is one emitter for each filter. The
filters are told apart by their JSON, which has the properties of a filter in their order.
-/

namespace UniversalLogin

/-- A filter: the names and the values of its properties. -/
abbrev Filter := List (String × JsString)

def Filter.contractAddress (filter : Filter) : Option JsString := filter.lookup "contractAddress"

def Filter.key (filter : Filter) : Option JsString := filter.lookup "key"

/-- To write the key of a filter in lower case. -/
def Filter.lowerKey (filter : Filter) : Filter :=
  filter.map fun (name, value) => (name, if name = "key" then toLowerCase value else value)

inductive KeyEventType
  | keyAdded
  | keyRemoved
  deriving DecidableEq

/-- The `eventType` of a subscription. -/
inductive EventType
  | key (type : KeyEventType)
  | authorisationsChanged
  deriving DecidableEq

/-- A subscription to the events of a type. -/
structure Listener where
  eventType : EventType
  callback : Nat
  deriving DecidableEq

/-- The emitters of an observer with their listeners, the oldest one first. -/
abbrev Emitters := List (Filter × List Listener)

namespace Emitters

variable (emitters : Emitters)

/-- `Object.keys` -/
def filters : List Filter := emitters.map Prod.fst

def addListener (filter : Filter) (listener : Listener) : Emitters :=
  if filter ∈ emitters.filters then
    emitters.map fun (key, listeners) =>
      (key, if key = filter then listeners ++ [listener] else listeners)
  else emitters ++ [(filter, [listener])]

def subscribe (eventType : EventType) (filter : Filter) (callback : Nat) : Emitters :=
  emitters.addListener filter.lowerKey ⟨eventType, callback⟩

/-- The listeners of the emitter of a filter. -/
def listeners (filter : Filter) : List Listener := (emitters.lookup filter).getD []

/-- The callbacks that the emitter of a filter calls for an event. -/
def callbacks (filter : Filter) (eventType : EventType) : List Nat :=
  (emitters.listeners filter).filterMap fun listener =>
    if listener.eventType = eventType then some listener.callback else none

/-! ## What a subscription changes -/

variable {emitters : Emitters}

theorem lookup_isSome_iff {filter : Filter} :
    (emitters.lookup filter).isSome ↔ filter ∈ emitters.filters := by
  induction emitters with
  | nil => simp [filters]
  | cons entry emitters ih =>
    obtain ⟨key, listeners⟩ := entry
    rw [List.lookup_cons]
    by_cases h : filter = key
    · simp [h, filters]
    · simp_all [beq_false_of_ne h, filters]

theorem lookup_map_listeners (f : Filter → List Listener → List Listener) (filter : Filter) :
    (emitters.map fun (key, listeners) => (key, f key listeners)).lookup filter =
      (emitters.lookup filter).map (f filter) := by
  induction emitters with
  | nil => rfl
  | cons entry emitters ih =>
    obtain ⟨key, listeners⟩ := entry
    rw [List.map_cons, List.lookup_cons, List.lookup_cons, ih]
    by_cases h : filter = key
    · simp [h]
    · simp [beq_false_of_ne h]

theorem listeners_addListener (filter filter' : Filter) (listener : Listener) :
    (emitters.addListener filter listener).listeners filter' =
      emitters.listeners filter' ++ if filter' = filter then [listener] else [] := by
  rw [addListener, listeners, listeners]
  split
  · next hmem =>
    rw [lookup_map_listeners fun key listeners =>
      if key = filter then listeners ++ [listener] else listeners]
    by_cases h : filter' = filter
    · obtain ⟨_, hlookup⟩ := Option.isSome_iff_exists.mp (lookup_isSome_iff.mpr hmem)
      simp [h, hlookup]
    · cases emitters.lookup filter' <;> simp [h]
  · next hmem =>
    have hnone : emitters.lookup filter = none := by
      rwa [← Option.not_isSome_iff_eq_none, lookup_isSome_iff]
    rw [List.lookup_append]
    by_cases h : filter' = filter
    · simp [h, hnone]
    · cases emitters.lookup filter' <;> simp [List.lookup_cons, beq_false_of_ne h, h]

theorem callbacks_subscribe (eventType : EventType) (filter : Filter) (callback : Nat)
    (filter' : Filter) (eventType' : EventType) :
    (emitters.subscribe eventType filter callback).callbacks filter' eventType' =
      emitters.callbacks filter' eventType' ++
        if filter' = filter.lowerKey ∧ eventType = eventType' then [callback] else [] := by
  rw [subscribe, callbacks, listeners_addListener, List.filterMap_append, callbacks]
  congr 1
  by_cases hfilter : filter' = filter.lowerKey
  · by_cases htype : eventType = eventType' <;> simp [hfilter, htype]
  · simp [hfilter]

theorem mem_filters_subscribe {eventType : EventType} {filter filter' : Filter} :
    filter' ∈ (emitters.subscribe eventType filter callback).filters ↔
      filter' ∈ emitters.filters ∨ filter' = filter.lowerKey := by
  rw [subscribe, addListener]
  split
  · next hmem =>
    simp only [filters, List.map_map, Function.comp_def]
    constructor
    · exact .inl
    · rintro (h | rfl)
      · exact h
      · exact hmem
  · simp [filters]

theorem nodup_filters_subscribe {eventType : EventType} {filter : Filter}
    (h : emitters.filters.Nodup) :
    (emitters.subscribe eventType filter callback).filters.Nodup := by
  rw [subscribe, addListener]
  split
  · simpa only [filters, List.map_map, Function.comp_def] using h
  · next hmem =>
    rw [filters, List.map_append]
    refine List.nodup_append.mpr ⟨h, by simp, ?_⟩
    rintro filter' hfilter' _ hnew rfl
    obtain rfl : filter' = filter.lowerKey := by simpa using hnew
    exact hmem hfilter'

end Emitters

end UniversalLogin
