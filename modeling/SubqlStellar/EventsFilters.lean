import Mathlib.Data.List.Forall2
import SubqlStellar.EventsSpill
/-!
# EventsFilters — requests with different filters, on one server

`getEvents` answered one request after the other, from an empty cache, by a server that holds a fixed log and fills its
pages up to the limit.  The cache is keyed by the ledger alone: a ledger's entry holds, merged, what the filters of the
requests that left it select (`Fillers`, `Refines`), and answers the next request for the ledger whatever that one's
filters are.  So every request gets what its own filters select exactly when each one that finds an entry selects just
what that entry's fillers do (`filtered_events_iff`).
-/
namespace SubqlStellar

open Keyed (mergeOn)

/-- A request of `getEvents`: a ledger, filters and a limit, and no end ledger. -/
structure EventsQuery (Filter : Type) where
  height : Nat
  filters : List Filter
  pageLimit : ℕ+

def EventsQuery.request {Filter : Type} (query : EventsQuery Filter) : GetEventsRequest Filter :=
  ⟨some query.height, none, query.filters, none, some query.pageLimit⟩

section Queries

variable {Filter : Type} (log : EventLog) (rpc : RpcFilters Filter)

/-- The results of the requests, each call ending before the next one starts. -/
def answerAll (fuel : Nat) :
    EventsCache → List (EventsQuery Filter) → Option (List (Except JsError CachedEventsResponse))
  | _, []                          => some []
  | eventsCache, query :: queries =>
    match getEvents (serve log rpc pageUpToLimit) fuel eventsCache query.request with
    | none                       => none
    | some (result, eventsCache) => (answerAll fuel eventsCache queries).map (result :: ·)

def selection (ledger : Nat) (filters : List Filter) : List SorobanRpcEventResponse :=
  ledgerEvents ledger (log.view rpc filters)

/-- A response, if there is one, is what the request's own filters select of its ledger. -/
def Answers (query : EventsQuery Filter) (result : Except JsError CachedEventsResponse) : Prop :=
  ∀ response, result = .ok response → response.events = selection log rpc query.height query.filters

/-- For each ledger, the filters of the requests that left it in the cache since it was last asked for. -/
abbrev Fillers (Filter : Type) := Nat → List (List Filter)

def merged (ledger : Nat) (fillers : List (List Filter)) : List SorobanRpcEventResponse :=
  fillers.foldl (fun acc filters => mergeOn SorobanRpcEventResponse.id acc (selection log rpc ledger filters)) []

/-- The fillers after a request: it uses its ledger's up, or becomes one of every ledger it leaves in the cache. -/
def fill (fillers : Fillers Filter) (query : EventsQuery Filter) : Fillers Filter := fun ledger =>
  if fillers query.height ≠ [] then
    if ledger = query.height then [] else fillers ledger
  else if query.height ≤ log.newestLedger ∧
      ledgerEvents ledger (spill (log.view rpc query.filters) query.height query.pageLimit) ≠ [] then
    fillers ledger ++ [query.filters]
  else fillers ledger

/-- Each request whose ledger has fillers selects what they do. -/
def Agrees : Fillers Filter → List (EventsQuery Filter) → Prop
  | _, []                       => True
  | fillers, query :: queries =>
    (fillers query.height ≠ [] →
      merged log rpc query.height (fillers query.height) = selection log rpc query.height query.filters) ∧
    Agrees (fill log rpc fillers query) queries

def Refines (eventsCache : EventsCache) (fillers : Fillers Filter) : Prop :=
  ∀ ledger, (AList.lookup ledger eventsCache).map CachedEventsResponse.events =
    if fillers ledger = [] then none else some (merged log rpc ledger (fillers ledger))

variable {log rpc}

theorem merged_append (ledger : Nat) (fillers : List (List Filter)) (filters : List Filter) :
    merged log rpc ledger (fillers ++ [filters]) =
      mergeOn SorobanRpcEventResponse.id (merged log rpc ledger fillers) (selection log rpc ledger filters) := by
  unfold merged
  rw [List.foldl_append]
  rfl

theorem refines_empty : Refines log rpc (∅ : EventsCache) (fun _ => []) := by
  intro ledger
  have hnone : AList.lookup ledger (∅ : EventsCache) = none := AList.lookup_empty ledger
  rw [hnone, if_pos rfl]
  rfl

theorem Refines.lookup_eq_none {eventsCache : EventsCache} {fillers : Fillers Filter}
    (h : Refines log rpc eventsCache fillers)
    {ledger : Nat} (hnil : fillers ledger = []) : AList.lookup ledger eventsCache = none := by
  have hl := h ledger
  rw [if_pos hnil, Option.map_eq_none_iff] at hl
  exact hl

theorem Refines.lookup_eq_some {eventsCache : EventsCache} {fillers : Fillers Filter}
    (h : Refines log rpc eventsCache fillers)
    {ledger : Nat} (hne : fillers ledger ≠ []) :
    ∃ entry, AList.lookup ledger eventsCache = some entry ∧ entry.events = merged log rpc ledger (fillers ledger) := by
  have hl := h ledger
  rw [if_neg hne, Option.map_eq_some_iff] at hl
  exact hl

theorem Refines.entryOr {eventsCache : EventsCache} {fillers : Fillers Filter} (h : Refines log rpc eventsCache fillers)
    (ledger latestLedger : Nat) :
    (entryOr eventsCache ledger latestLedger).events = merged log rpc ledger (fillers ledger) := by
  unfold SubqlStellar.entryOr
  by_cases hnil : fillers ledger = []
  · rw [h.lookup_eq_none hnil, hnil]
    rfl
  · obtain ⟨entry, hentry, hevents⟩ := h.lookup_eq_some hnil
    rw [hentry]
    exact hevents

/-- **A fetch files its filters under the ledgers it leaves in the cache.** -/
theorem Refines.update {eventsCache : EventsCache} {fillers : Fillers Filter} (h : Refines log rpc eventsCache fillers)
    {query : EventsQuery Filter} {eventsToCache : CachedEventsResponse} (hnil : fillers query.height = [])
    (hL : query.height ≤ log.newestLedger) (hto : ToCache log rpc query.filters query.height eventsToCache)
    (hspill : eventsToCache.events = spill (log.view rpc query.filters) query.height query.pageLimit)
    (hwhole : Keyed.Whole SorobanRpcEventResponse.ledger (log.view rpc query.filters) eventsToCache.events) :
    Refines log rpc (updateEventCache eventsCache eventsToCache (some query.height)) (fill log rpc fillers query) := by
  intro ledger
  rw [lookup_updateEventCache eventsCache eventsToCache query.height ledger
    (fun event he => Nat.ne_of_gt (hto.later event he).2)]
  by_cases hfiled : ledgerEvents ledger eventsToCache.events = []
  · have hfill : fill log rpc fillers query ledger = fillers ledger := by
      unfold fill
      rw [if_neg (not_not.2 hnil), ← hspill, if_neg (fun hc => hc.2 hfiled)]
    rw [if_pos hfiled, hfill]
    exact h ledger
  · have hfill : fill log rpc fillers query ledger = fillers ledger ++ [query.filters] := by
      unfold fill
      rw [if_neg (not_not.2 hnil), ← hspill, if_pos ⟨hL, hfiled⟩]
    have hwhole : ledgerEvents ledger eventsToCache.events = selection log rpc ledger query.filters :=
      hwhole ledger hfiled
    rw [if_neg hfiled, hfill, if_neg (List.append_ne_nil_of_right_ne_nil _ (List.cons_ne_nil _ _)), Option.map_some,
      merged_append, hwhole]
    show some (mergeOn SorobanRpcEventResponse.id (SubqlStellar.entryOr _ _ _).events _) = _
    rw [h.entryOr]

/-- **One request**: it is answered as it should be unless its ledger's fillers select something else. -/
theorem answers_step {fuel : Nat} (hfuel : log.events.length < fuel) {eventsCache : EventsCache}
    {fillers : Fillers Filter}
    (h : Refines log rpc eventsCache fillers) (query : EventsQuery Filter) :
    ∃ result eventsCache', getEvents (serve log rpc pageUpToLimit) fuel eventsCache query.request =
        some (result, eventsCache') ∧
      Refines log rpc eventsCache' (fill log rpc fillers query) ∧
      (Answers log rpc query result ↔ (fillers query.height ≠ [] →
        merged log rpc query.height (fillers query.height) = selection log rpc query.height query.filters)) := by
  by_cases hnil : fillers query.height = []
  · have hnone := h.lookup_eq_none hnil
    by_cases hL : query.height ≤ log.newestLedger
    · have hn : (ledgerEvents query.height (log.view rpc query.filters)).length < fuel :=
        Nat.lt_of_le_of_lt (Nat.le_trans (List.length_filter_le _ _) (List.length_filter_le _ _)) hfuel
      have hpos : ∀ request : GetEventsRequest Filter, request.limit = some (query.pageLimit : Nat) →
          0 < pageUpToLimit request := fun request hlimit => by
        rw [pageUpToLimit, hlimit]
        exact query.pageLimit.2
      obtain ⟨eventsToCache, hfetch, hget, hto, hwhole⟩ := getEvents_miss hpos hL hnone hn
      have hspill := fetchEventsForSequence_toCache hL hfetch
      have hwhole' := hwhole (fun request hlimit => by rw [pageUpToLimit, hlimit]; rfl)
      refine ⟨_, _, hget, h.update hnil hL hto hspill hwhole', ?_⟩
      exact ⟨fun _ hne => absurd hnil hne, fun _ response hresponse => by cases hresponse; rfl⟩
    · obtain ⟨fuel, rfl⟩ : ∃ n, fuel = n + 1 := Nat.exists_eq_succ_of_ne_zero (by omega)
      refine ⟨_, _, getEvents_rejected (by omega) hnone query.filters _, fun ledger => ?_, ?_⟩
      · have hfill : fill log rpc fillers query ledger = fillers ledger := by
          unfold fill
          rw [if_neg (not_not.2 hnil), if_neg (fun hc => hL hc.1)]
        rw [hfill]
        exact h ledger
      · exact ⟨fun _ hne => absurd hnil hne, fun _ response hresponse => by cases hresponse⟩
  · obtain ⟨entry, hentry, hevents⟩ := h.lookup_eq_some hnil
    refine ⟨_, _, getEvents_hit hentry fuel rfl, fun ledger => ?_, ?_⟩
    · unfold fill
      rw [if_pos hnil, Keyed.Table.lookup_erase_eq]
      by_cases hl : ledger = query.height
      · rw [if_pos hl, if_pos hl, if_pos rfl]
        rfl
      · rw [if_neg hl, if_neg hl]
        exact h ledger
    · constructor
      · intro hans _
        rw [← hevents]
        exact hans entry rfl
      · intro hagree response hresponse
        cases hresponse
        rw [hevents]
        exact hagree hnil

theorem answers_run {fuel : Nat} (hfuel : log.events.length < fuel) :
    ∀ (queries : List (EventsQuery Filter)) {eventsCache : EventsCache} {fillers : Fillers Filter},
    Refines log rpc eventsCache fillers →
    ∃ results, answerAll log rpc fuel eventsCache queries = some results ∧
      (List.Forall₂ (Answers log rpc) queries results ↔ Agrees log rpc fillers queries)
  | [], _, _, _ => ⟨[], rfl, ⟨fun _ => trivial, fun _ => List.Forall₂.nil⟩⟩
  | query :: queries, eventsCache, fillers, h => by
    obtain ⟨result, eventsCache', hget, h', hiff⟩ := answers_step hfuel h query
    obtain ⟨results, hall, ih⟩ := answers_run hfuel queries h'
    refine ⟨result :: results, ?_, ?_⟩
    · unfold answerAll
      rw [hget]
      simp only [hall, Option.map_some]
    · rw [List.forall₂_cons, hiff, ih]
      rfl

/-- **Every request gets exactly what its own filters select of its ledger if and only if each one whose ledger earlier
requests have left in the cache selects of it just what their filters do.** -/
theorem filtered_events_iff (log : EventLog) (rpc : RpcFilters Filter) {fuel : Nat} (hfuel : log.events.length < fuel)
    (queries : List (EventsQuery Filter)) :
    ∃ results, answerAll log rpc fuel ∅ queries = some results ∧
      (List.Forall₂ (Answers log rpc) queries results ↔ Agrees log rpc (fun _ => []) queries) :=
  answers_run hfuel queries refines_empty

theorem merged_of_forall_eq {ledger : Nat} {events : List SorobanRpcEventResponse}
    (hids : (events.map SorobanRpcEventResponse.id).Nodup) {fillers : List (List Filter)} (hne : fillers ≠ [])
    (h : ∀ filters ∈ fillers, selection log rpc ledger filters = events) : merged log rpc ledger fillers = events := by
  have hfold : ∀ {fillers : List (List Filter)}, (∀ filters ∈ fillers, selection log rpc ledger filters = events) →
      fillers.foldl (fun acc filters => mergeOn SorobanRpcEventResponse.id acc (selection log rpc ledger filters))
        events = events := by
    intro fillers h
    induction fillers with
    | nil => rfl
    | cons filters fillers ih =>
      rw [List.foldl_cons, h filters List.mem_cons_self, Keyed.mergeOn_self]
      exact ih (fun filters' hf => h filters' (List.mem_cons_of_mem filters hf))
  cases fillers with
  | nil => exact absurd rfl hne
  | cons filters fillers =>
    unfold merged
    rw [List.foldl_cons, h filters List.mem_cons_self, Keyed.mergeOn_nil _ hids]
    exact hfold (fun filters' hf => h filters' (List.mem_cons_of_mem filters hf))

/-- **Requests that all select the same events do not interfere**, so the indexer alone, whose requests carry no
filters, is answered right. -/
theorem agrees_of_same (select : Nat → List SorobanRpcEventResponse) : ∀ {queries : List (EventsQuery Filter)}
    {fillers : Fillers Filter}, (∀ query ∈ queries, ∀ ledger, selection log rpc ledger query.filters = select ledger) →
    (∀ ledger, ∀ filters ∈ fillers ledger, ∀ ledger', selection log rpc ledger' filters = select ledger') →
    Agrees log rpc fillers queries
  | [], _, _, _ => trivial
  | query :: queries, fillers, hq, hf => by
    have hquery := hq query List.mem_cons_self
    refine ⟨fun hne => ?_, agrees_of_same select (fun query' h => hq query' (List.mem_cons_of_mem query h)) ?_⟩
    · have hids : ((selection log rpc query.height query.filters).map SorobanRpcEventResponse.id).Nodup :=
        (view_distinctIds log rpc query.filters).sublist (List.filter_sublist.map _)
      refine merged_of_forall_eq hids hne (fun filters h => ?_)
      rw [hf _ filters h, hquery]
    · intro ledger filters h
      unfold fill at h
      split at h
      · split at h
        · cases h
        · exact hf ledger filters h
      · split at h
        · rcases List.mem_append.1 h with h | h
          · exact hf ledger filters h
          · rw [List.mem_singleton.1 h]
            exact hquery
        · exact hf ledger filters h

end Queries

/-! ## Two clients of one server -/

def byContract : RpcFilters String where
  selects filters event :=
    filters.isEmpty || filters.any (fun contractId => decide (event.contractId = some contractId))
  selects_nil := fun _ => rfl

def contractEvent (id : String) (ledger : Nat) (contractId : String) : SorobanRpcEventResponse :=
  ⟨id, ledger, ⟨"c0", by decide⟩, 0, some contractId, []⟩

def contractLog : EventLog where
  events := [contractEvent "e1" 1 "A", contractEvent "e2" 2 "A", contractEvent "e3" 2 "B", contractEvent "e4" 3 "B"]
  newestLedger := 3
  sorted := by decide
  closed := by decide
  distinctIds := by decide

/-- A handler asks for contract `A`'s events of ledger 1, then the indexer for all events of ledger 2. -/
def handlerThenIndexer : List (EventsQuery String) := [⟨1, ["A"], 4⟩, ⟨2, [], 4⟩]

/-- **The indexer is answered with what the handler's filters select of ledger 2**, and never sees the other event. -/
theorem handler_starves_indexer :
    answerAll contractLog byContract 5 ∅ handlerThenIndexer =
        some [.ok ⟨[contractEvent "e1" 1 "A"], 3⟩, .ok ⟨[contractEvent "e2" 2 "A"], 3⟩] ∧
      selection contractLog byContract 2 [] = [contractEvent "e2" 2 "A", contractEvent "e3" 2 "B"] :=
  ⟨rfl, rfl⟩

def indexerAlone : List (EventsQuery String) := [⟨1, [], 4⟩, ⟨2, [], 4⟩]

theorem filtered_events_indexer : ∃ results, answerAll contractLog byContract 5 ∅ indexerAlone = some results ∧
    List.Forall₂ (Answers contractLog byContract) indexerAlone results := by
  obtain ⟨results, hall, hiff⟩ :=
    filtered_events_iff contractLog byContract (show contractLog.events.length < 5 by decide) indexerAlone
  have hnil : ∀ query ∈ indexerAlone, query.filters = [] := by decide
  refine ⟨results, hall, hiff.2 (agrees_of_same (fun ledger => selection contractLog byContract ledger [])
    (fun query h ledger => by rw [hnil query h]) (fun _ _ h => absurd h List.not_mem_nil))⟩

end SubqlStellar
