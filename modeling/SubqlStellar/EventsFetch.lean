import SubqlStellar.EventsRpc
/-!
# EventsFetch — one fetch from beginning to end

A fetch against a server that answers every request with a nonempty run of what remains, of any length, ends after at
most one page more than the ledger has events, with exactly those events (`fetchByCall_ends`).  What it leaves to be
cached is of later ledgers, and whole when the server fills its pages up to the limit.  A server that answers a request
the same way at each call is a special case (`fetchEventsForSequence_ends`).
-/
namespace SubqlStellar

open Keyed (Sorted Whole)

variable {Filter : Type}

def nextPage (view : List SorobanRpcEventResponse) (latestLedger pageLength : Nat) (request : GetEventsRequest Filter) :
    GetEventsResponse :=
  let (place, rest) := remaining view request
  let page := rest.take pageLength
  ⟨page, latestLedger, place + page.length⟩

/-- `fetchEventsForSequence` against a server whose answer may change from call to call, and the calls made. -/
def fetchByCall (getPage : Nat → GetEventsRequest Filter → Except JsError GetEventsResponse) (sequence : Nat) :
    Nat → Nat → GetEventsRequest Filter → List SorobanRpcEventResponse →
      Option (Except JsError (CachedEventsResponse × CachedEventsResponse) × Nat)
  | 0, _, _, _ => none
  | fuel + 1, call, request, accEvents =>
    match getPage call request with
    | .error e => some (.error e, call + 1)
    | .ok response =>
      match onResponse sequence request accEvents response with
      | .done events eventsToCache  => some (.ok (events, eventsToCache), call + 1)
      | .next nextRequest newEvents => fetchByCall getPage sequence fuel (call + 1) nextRequest newEvents

/-- Where the answers do not change, it is `fetchEventsForSequence`. -/
theorem fetchByCall_fst (getPage : GetEventsRequest Filter → Except JsError GetEventsResponse) (sequence : Nat) :
    ∀ (fuel call : Nat) (request : GetEventsRequest Filter) (accEvents : List SorobanRpcEventResponse),
    (fetchByCall (fun _ => getPage) sequence fuel call request accEvents).map Prod.fst =
      fetchEventsForSequence getPage sequence fuel request accEvents
  | 0, _, _, _ => rfl
  | fuel + 1, call, request, accEvents => by
    unfold fetchByCall fetchEventsForSequence
    cases getPage request with
    | error e => rfl
    | ok response =>
      simp only
      cases onResponse sequence request accEvents response with
      | done events eventsToCache => rfl
      | next nextRequest newEvents => exact fetchByCall_fst getPage sequence fuel (call + 1) nextRequest newEvents

theorem fetchByCall_mono {getPage : Nat → GetEventsRequest Filter → Except JsError GetEventsResponse} {sequence : Nat}
    {result : Except JsError (CachedEventsResponse × CachedEventsResponse) × Nat} :
    ∀ {fuel fuel' call : Nat} {request : GetEventsRequest Filter} {accEvents : List SorobanRpcEventResponse},
    fuel ≤ fuel' → fetchByCall getPage sequence fuel call request accEvents = some result →
    fetchByCall getPage sequence fuel' call request accEvents = some result
  | 0, _, _, _, _, _, h => by cases h
  | _ + 1, 0, _, _, _, hle, _ => by omega
  | fuel + 1, fuel' + 1, call, request, accEvents, hle, h => by
    unfold fetchByCall at h ⊢
    cases hpage : getPage call request with
    | error e =>
      rw [hpage] at h
      exact h
    | ok response =>
      rw [hpage] at h
      simp only at h ⊢
      cases hresponse : onResponse sequence request accEvents response with
      | done events eventsToCache =>
        rw [hresponse] at h
        exact h
      | next nextRequest newEvents =>
        rw [hresponse] at h
        exact fetchByCall_mono (Nat.le_of_succ_le_succ hle) h

theorem Fetching.length_le {view accEvents : List SorobanRpcEventResponse} {L : Nat}
    {request : GetEventsRequest Filter} (hf : Fetching view L request accEvents) :
    accEvents.length ≤ (ledgerEvents L view).length := by
  cases hf with
  | first filters limit => exact Nat.zero_le _
  | later filters limit before after hview _ _ =>
    rw [hview, ledgerEvents_append, List.length_append]
    exact Nat.le_add_right _ _

section Pages

variable {view : List SorobanRpcEventResponse} {L : Nat} {filters : List Filter} {limit : Option Nat}

/-- A server answers the requests of a fetch of `L` with nonempty pages, of any length, while something remains. -/
def AnswersPages (getPage : Nat → GetEventsRequest Filter → Except JsError GetEventsResponse)
    (view : List SorobanRpcEventResponse) (L : Nat) (filters : List Filter) (limit : Option Nat)
    (latestLedger : Nat → Nat) (pageLength : Nat → GetEventsRequest Filter → Nat) : Prop :=
  ∀ (call : Nat) (request : GetEventsRequest Filter) (accEvents : List SorobanRpcEventResponse),
    request.filters = filters → request.limit = limit → Fetching view L request accEvents →
    0 < pageLength call request ∧
      getPage call request = .ok (nextPage view (latestLedger call) (pageLength call request) request)

structure EndsWith (view : List SorobanRpcEventResponse) (L : Nat) (limit : Option Nat) (latestLedger pageLength : Nat)
    (events eventsToCache : CachedEventsResponse) : Prop where
  events_eq : events = ⟨ledgerEvents L view, latestLedger⟩
  latestLedger_eq : eventsToCache.latestLedger = latestLedger
  later : ∀ event ∈ eventsToCache.events, event ∈ view ∧ L < event.ledger
  whole : limit = some pageLength → Whole SorobanRpcEventResponse.ledger view eventsToCache.events

theorem endsWith_of_done (hsorted : Sorted SorobanRpcEventResponse.ledger view) {request : GetEventsRequest Filter}
    {accEvents before after : List SorobanRpcEventResponse} {response : GetEventsResponse} {pageLength : Nat}
    (hp : PageOf view L pageLength request accEvents before response.events after) (hpos : 0 < pageLength)
    {events eventsToCache : CachedEventsResponse}
    (h : onResponse L request accEvents response = .done events eventsToCache) :
    EndsWith view L request.limit response.latestLedger pageLength events eventsToCache := by
  obtain ⟨hlatest, hlater⟩ := onResponse_toCache hp h
  refine ⟨onResponse_done hpos hsorted hp h, hlatest, fun event he => ?_,
    fun hfull => onResponse_whole hsorted (by rw [hfull]; rfl) hp h⟩
  obtain ⟨hpage, hgt⟩ := hlater event he
  refine ⟨?_, hgt⟩
  rw [hp.hview]
  exact List.mem_append_left _ (List.mem_append_right _ hpage)

/-- **A fetch ends**: the measure is the events of its ledger still to come, of which each page but the last brings at
least one. -/
theorem fetchByCall_ends {getPage : Nat → GetEventsRequest Filter → Except JsError GetEventsResponse}
    {latestLedger : Nat → Nat} {pageLength : Nat → GetEventsRequest Filter → Nat}
    (hanswers : AnswersPages getPage view L filters limit latestLedger pageLength)
    (hsorted : Sorted SorobanRpcEventResponse.ledger view) :
    ∀ (fuel call : Nat) {request : GetEventsRequest Filter} {accEvents : List SorobanRpcEventResponse},
    request.filters = filters → request.limit = limit → Fetching view L request accEvents →
    (ledgerEvents L view).length < accEvents.length + fuel →
    ∃ events eventsToCache calls, calls + accEvents.length ≤ call + (ledgerEvents L view).length + 1 ∧
      fetchByCall getPage L fuel call request accEvents = some (.ok (events, eventsToCache), calls) ∧
      ∃ last lastRequest, lastRequest.limit = limit ∧
        EndsWith view L limit (latestLedger last) (pageLength last lastRequest) events eventsToCache
  | 0, _, _, _, _, _, hf, hfuel => by
    have := hf.length_le
    omega
  | fuel + 1, call, request, accEvents, hfilters, hlimit, hf, hfuel => by
    obtain ⟨hpos, hpage⟩ := hanswers call request accEvents hfilters hlimit hf
    obtain ⟨before, after, hp, hplace⟩ := hf.pageOf hsorted (pageLength call request)
    have hle := hf.length_le
    unfold fetchByCall
    rw [hpage]
    simp only
    cases hresponse : onResponse L request accEvents
        (nextPage view (latestLedger call) (pageLength call request) request) with
    | done events eventsToCache =>
      refine ⟨events, eventsToCache, call + 1, by omega, rfl, call, request, hlimit, ?_⟩
      rw [← hlimit]
      exact endsWith_of_done hsorted hp hpos hresponse
    | next nextRequest newEvents =>
      have hcursor : (nextPage view (latestLedger call) (pageLength call request) request).cursor =
          (before ++ (remaining view request).2.take (pageLength call request)).length := by
        rw [List.length_append, ← hplace]
        rfl
      obtain ⟨hf', hfilters', hlimit', -⟩ := onResponse_next hp hcursor hresponse
      have hgrow : accEvents.length < newEvents.length := onResponse_grows hresponse
      obtain ⟨events, eventsToCache, calls, hcalls, hfetch, hends⟩ :=
        fetchByCall_ends hanswers hsorted fuel (call + 1) (hfilters'.trans hfilters) (hlimit'.trans hlimit) hf'
          (by omega)
      exact ⟨events, eventsToCache, calls, by omega, hfetch, hends⟩

end Pages

def serve (log : EventLog) (rpc : RpcFilters Filter) (cut : GetEventsRequest Filter → Nat)
    (request : GetEventsRequest Filter) : Except JsError GetEventsResponse := answer log rpc (cut request) request

structure ToCache (log : EventLog) (rpc : RpcFilters Filter) (filters : List Filter) (L : Nat)
    (eventsToCache : CachedEventsResponse) : Prop where
  latestLedger : eventsToCache.latestLedger = log.newestLedger
  later : ∀ event ∈ eventsToCache.events, event ∈ log.view rpc filters ∧ L < event.ledger

theorem serve_eq_nextPage {log : EventLog} {rpc : RpcFilters Filter} {cut : GetEventsRequest Filter → Nat} {L : Nat}
    (hL : L ≤ log.newestLedger) {view accEvents : List SorobanRpcEventResponse} {request : GetEventsRequest Filter}
    (hf : Fetching view L request accEvents) : serve log rpc cut request =
      .ok (nextPage (log.view rpc request.filters) log.newestLedger (cut request) request) := by
  unfold serve answer
  rw [if_neg]
  · rfl
  · rintro ⟨hcursor, hlt⟩
    cases hf with
    | first filters limit =>
      rw [Option.getD_some] at hlt
      omega
    | later filters limit before after _ _ _ => cases hcursor

/-- **A fetch of a closed ledger ends, with its events.** -/
theorem fetchEventsForSequence_ends {log : EventLog} {rpc : RpcFilters Filter} {cut : GetEventsRequest Filter → Nat}
    {limit : Option Nat} (hpos : ∀ request, request.limit = limit → 0 < cut request) {L : Nat}
    (hL : L ≤ log.newestLedger) {filters : List Filter} {fuel : Nat}
    (hfuel : (ledgerEvents L (log.view rpc filters)).length < fuel) :
    ∃ eventsToCache, fetchEventsForSequence (serve log rpc cut) L fuel ⟨some L, some (L + 1), filters, none, limit⟩ [] =
        some (.ok (⟨ledgerEvents L (log.view rpc filters), log.newestLedger⟩, eventsToCache)) ∧
      ToCache log rpc filters L eventsToCache ∧
      ((∀ request, request.limit = limit → limit = some (cut request)) →
        Whole SorobanRpcEventResponse.ledger (log.view rpc filters) eventsToCache.events) := by
  have hanswers : AnswersPages (fun _ => serve log rpc cut) (log.view rpc filters) L filters limit
      (fun _ => log.newestLedger) (fun _ => cut) := by
    rintro call request accEvents rfl hlimit hf
    exact ⟨hpos request hlimit, serve_eq_nextPage hL hf⟩
  obtain ⟨events, eventsToCache, calls, -, hfetch, last, lastRequest, hlimit, hends⟩ :=
    fetchByCall_ends hanswers (view_sorted log rpc filters) fuel 0 rfl rfl (Fetching.first filters limit)
      (by rw [List.length_nil, Nat.zero_add]; exact hfuel)
  refine ⟨eventsToCache, ?_, ⟨hends.latestLedger_eq, hends.later⟩,
    fun hfull => hends.whole (hfull lastRequest hlimit)⟩
  rw [← fetchByCall_fst, hfetch, hends.events_eq]
  rfl

theorem getEvents_hit {getPage : GetEventsRequest Filter → Except JsError GetEventsResponse} {eventsCache : EventsCache}
    {L : Nat} {entry : CachedEventsResponse} (hentry : AList.lookup L eventsCache = some entry) (fuel : Nat)
    {request : GetEventsRequest Filter} (hstart : request.startLedger = some L) :
    getEvents getPage fuel eventsCache request = some (.ok entry, AList.erase L eventsCache) := by
  simp only [getEvents, beginGetEvents, hstart, hentry]

theorem getEvents_eq_ok {getPage : GetEventsRequest Filter → Except JsError GetEventsResponse} {fuel L : Nat}
    {eventsCache eventsCache' : EventsCache} (hnone : AList.lookup L eventsCache = none) {filters : List Filter}
    {limit : Option Nat} {events : CachedEventsResponse} :
    getEvents getPage fuel eventsCache ⟨some L, none, filters, none, limit⟩ = some (.ok events, eventsCache') ↔
      ∃ eventsToCache, fetchEventsForSequence getPage L fuel ⟨some L, some (L + 1), filters, none, limit⟩ [] =
          some (.ok (events, eventsToCache)) ∧
        eventsCache' = updateEventCache eventsCache eventsToCache (some L) := by
  simp only [getEvents, beginGetEvents, hnone, Option.getD_none]
  cases fetchEventsForSequence getPage L fuel ⟨some L, some (L + 1), filters, none, limit⟩ [] with
  | none => simp
  | some result =>
    cases result with
    | error e => simp
    | ok result =>
      simp only [Option.some.injEq, Prod.mk.injEq, Except.ok.injEq]
      constructor
      · rintro ⟨rfl, rfl⟩
        exact ⟨result.2, rfl, rfl⟩
      · rintro ⟨eventsToCache, rfl, rfl⟩
        exact ⟨rfl, rfl⟩

theorem getEvents_rejected {log : EventLog} {rpc : RpcFilters Filter} {cut : GetEventsRequest Filter → Nat}
    {L fuel : Nat} {eventsCache : EventsCache} (hL : log.newestLedger < L)
    (hnone : AList.lookup L eventsCache = none) (filters : List Filter) (limit : Option Nat) :
    getEvents (serve log rpc cut) (fuel + 1) eventsCache ⟨some L, none, filters, none, limit⟩ =
      some (.error ⟨"start is after newest ledger"⟩, eventsCache) := by
  simp only [getEvents, beginGetEvents, hnone, fetchEventsForSequence, serve, answer, Option.getD_some, hL, and_self,
    if_true]

/-- **A call that misses returns its ledger's events, and updates the cache with later ones.** -/
theorem getEvents_miss {log : EventLog} {rpc : RpcFilters Filter} {cut : GetEventsRequest Filter → Nat}
    {limit : Option Nat} (hpos : ∀ request, request.limit = limit → 0 < cut request) {L : Nat}
    (hL : L ≤ log.newestLedger) {eventsCache : EventsCache} (hnone : AList.lookup L eventsCache = none)
    {filters : List Filter} {fuel : Nat} (hfuel : (ledgerEvents L (log.view rpc filters)).length < fuel) :
    ∃ eventsToCache, fetchEventsForSequence (serve log rpc cut) L fuel ⟨some L, some (L + 1), filters, none, limit⟩ [] =
        some (.ok (⟨ledgerEvents L (log.view rpc filters), log.newestLedger⟩, eventsToCache)) ∧
      getEvents (serve log rpc cut) fuel eventsCache ⟨some L, none, filters, none, limit⟩ =
        some (.ok ⟨ledgerEvents L (log.view rpc filters), log.newestLedger⟩,
          updateEventCache eventsCache eventsToCache (some L)) ∧
      ToCache log rpc filters L eventsToCache ∧
      ((∀ request, request.limit = limit → limit = some (cut request)) →
        Whole SorobanRpcEventResponse.ledger (log.view rpc filters) eventsToCache.events) := by
  obtain ⟨eventsToCache, hfetch, hto, hwhole⟩ := fetchEventsForSequence_ends hpos hL hfuel
  refine ⟨eventsToCache, hfetch, ?_, hto, hwhole⟩
  simp only [getEvents, beginGetEvents, hnone, Option.getD_none, hfetch]

end SubqlStellar
