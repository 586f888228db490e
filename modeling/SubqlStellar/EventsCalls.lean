import SubqlStellar.EventsRpc
import SubqlStellar.Runs
/-!
# EventsCalls — concurrent calls of `getEvents` on one server

One `SorobanServer`, its cache, and any number of calls of `getEvents` on it, each for a ledger with filters and a page
limit, or none, of its own.  A call starts (and is answered from the cache, or asks for its first page), receives pages
one at a time, may fail while it waits for one, and finishes by updating the cache.  The RPC server chooses how long its
pages are, closes ledgers in between, and drops old ones, which it then refuses.

`Moves` says what each step does.  `Served` holds in every state a run reaches (`served_of_run`): every event the cache
holds is the server's, and of the entry's ledger.  Where callers pass no filters and pages are as long as the client
takes them to be (`WholePages`), `Consistent` holds too (`consistent_of_run`): what the cache holds of a ledger, and
what a call resolves with, is all of that ledger's events.
-/
namespace SubqlStellar

open Keyed (Sorted Whole)
open Runs (run AllSteps)

def eventsRequest {Filter : Type} (height : Nat) (filters : List Filter) (limit : Option ℕ+) :
    GetEventsRequest Filter where
  startLedger := some height
  endLedger := none
  filters
  cursor := none
  limit := limit.map PNat.val

inductive Call (Filter : Type) where
  | fetching (sequence : Nat) (request : GetEventsRequest Filter) (accEvents : List SorobanRpcEventResponse)
  | fetched (sequence : Nat) (events eventsToCache : CachedEventsResponse)
  | resolved (sequence : Nat) (response : CachedEventsResponse)
  | failed (sequence : Nat) (e : JsError)

def Call.sequence {Filter : Type} : Call Filter → Nat
  | .fetching sequence _ _ => sequence
  | .fetched sequence _ _  => sequence
  | .resolved sequence _   => sequence
  | .failed sequence _     => sequence

/-- The RPC server's log, of which it still serves the ledgers from `oldestLedger` on, and its client. -/
structure EventsSystem (Filter : Type) where
  log : EventLog
  oldestLedger : Nat
  eventsCache : EventsCache
  calls : List (Call Filter)

def EventsSystem.init (Filter : Type) (log : EventLog) : EventsSystem Filter := ⟨log, 0, ∅, []⟩

inductive Label (Filter : Type) where
  | start (height : Nat) (filters : List Filter) (limit : Option ℕ+)
  | page (i : Nat) (cap : ℕ+)
  | fail (i : Nat) (e : JsError)
  | finish (i : Nat)
  | close (events : List SorobanRpcEventResponse)
  | prune (oldestLedger : Nat)

section System

variable {Filter : Type} (rpc : RpcFilters Filter)

def EventsSystem.setCall (s : EventsSystem Filter) (i : Nat) (call : Call Filter) : EventsSystem Filter :=
  { s with calls := s.calls.set i call }

def EventsSystem.addCall (s : EventsSystem Filter) (call : Call Filter) : EventsSystem Filter :=
  { s with calls := s.calls ++ [call] }

/-- The page that a fetch of ledger `sequence` is answered with, of at most `cap` events.  All its requests start in
that ledger, and are refused once the server has dropped it. -/
def EventsSystem.getPage (s : EventsSystem Filter) (sequence : Nat) (cap : ℕ+) (request : GetEventsRequest Filter) :
    Except JsError GetEventsResponse :=
  if sequence < s.oldestLedger then .error ⟨"start is before oldest ledger"⟩
  else answer s.log rpc (cappedPage cap request) request

def receivePage (s : EventsSystem Filter) (i sequence : Nat) (request : GetEventsRequest Filter)
    (accEvents : List SorobanRpcEventResponse) (cap : ℕ+) : EventsSystem Filter :=
  match s.getPage rpc sequence cap request with
  | .error e => s.setCall i (.failed sequence e)
  | .ok response =>
    match onResponse sequence request accEvents response with
    | .done events eventsToCache  => s.setCall i (.fetched sequence events eventsToCache)
    | .next nextRequest newEvents => s.setCall i (.fetching sequence nextRequest newEvents)

def step (s : EventsSystem Filter) : Label Filter → Option (EventsSystem Filter)
  | .start height filters limit =>
    match beginGetEvents s.eventsCache (eventsRequest height filters limit) with
    | .throws e                     => some (s.addCall (.failed height e))
    | .hit cachedEvents eventsCache => some ({ s with eventsCache }.addCall (.resolved height cachedEvents))
    | .miss sequence request        => some (s.addCall (.fetching sequence request []))
  | .page i cap =>
    match s.calls[i]? with
    | some (.fetching sequence request accEvents) => some (receivePage rpc s i sequence request accEvents cap)
    | _ => none
  | .fail i e =>
    match s.calls[i]? with
    | some (.fetching sequence _ _) => some (s.setCall i (.failed sequence e))
    | _ => none
  | .finish i =>
    match s.calls[i]? with
    | some (.fetched sequence events eventsToCache) =>
      some ({ s with eventsCache := updateEventCache s.eventsCache eventsToCache (some sequence) }.setCall i
        (.resolved sequence events))
    | _ => none
  | .close events =>
    if h : (∀ event ∈ events, event.ledger = s.log.newestLedger + 1) ∧
        ((s.log.events ++ events).map SorobanRpcEventResponse.id).Nodup then
      some { s with log := s.log.close events h.1 h.2 }
    else none
  | .prune oldestLedger =>
    if s.oldestLedger ≤ oldestLedger ∧ oldestLedger ≤ s.log.newestLedger then some { s with oldestLedger } else none

/-- A full page is as long as the client takes it to be: the request's limit, or 150 where it has none. -/
def Call.FullPage (cap : ℕ+) : Call Filter → Prop
  | .fetching _ request _ => cappedPage cap request = request.limit.getD DEFAULT_PAGE_SIZE
  | _                     => True

/-- **Whole pages**: callers pass no filters, and full pages are as long as the client takes them to be. -/
def WholePages (s : EventsSystem Filter) : Label Filter → Prop
  | .start _ filters _ => filters = []
  | .page i cap        => ∀ call ∈ s.calls[i]?, call.FullPage cap
  | _                  => True

instance (cap : ℕ+) : DecidablePred (fun call : Call Filter => call.FullPage cap)
  | .fetching _ request _ => inferInstanceAs (Decidable (cappedPage cap request = request.limit.getD DEFAULT_PAGE_SIZE))
  | .fetched _ _ _ | .resolved _ _ | .failed _ _ => isTrue trivial

instance (s : EventsSystem Filter) : DecidablePred (WholePages s)
  | .start _ filters _ => inferInstanceAs (Decidable (filters = []))
  | .page i cap        => inferInstanceAs (Decidable (∀ call ∈ s.calls[i]?, call.FullPage cap))
  | .fail _ _ | .finish _ | .close _ | .prune _ => isTrue trivial

inductive Moves (s : EventsSystem Filter) : Label Filter → EventsSystem Filter → Prop
  | hit {height : Nat} {filters : List Filter} {limit : Option ℕ+} {entry : CachedEventsResponse}
      (hentry : AList.lookup height s.eventsCache = some entry) :
      Moves s (.start height filters limit)
        ({ s with eventsCache := AList.erase height s.eventsCache }.addCall (.resolved height entry))
  | miss {height : Nat} {filters : List Filter} {limit : Option ℕ+}
      (hnone : AList.lookup height s.eventsCache = none) :
      Moves s (.start height filters limit)
        (s.addCall (.fetching height ⟨some height, some (height + 1), filters, none, limit.map PNat.val⟩ []))
  | refused {i sequence : Nat} {cap : ℕ+} {request : GetEventsRequest Filter}
      {accEvents : List SorobanRpcEventResponse} {e : JsError}
      (hcall : s.calls[i]? = some (.fetching sequence request accEvents))
      (hpage : s.getPage rpc sequence cap request = .error e) :
      Moves s (.page i cap) (s.setCall i (.failed sequence e))
  | last {i sequence : Nat} {cap : ℕ+} {request : GetEventsRequest Filter} {accEvents : List SorobanRpcEventResponse}
      {response : GetEventsResponse} {events eventsToCache : CachedEventsResponse}
      (hcall : s.calls[i]? = some (.fetching sequence request accEvents))
      (hpage : s.getPage rpc sequence cap request = .ok response)
      (hdone : onResponse sequence request accEvents response = .done events eventsToCache) :
      Moves s (.page i cap) (s.setCall i (.fetched sequence events eventsToCache))
  | more {i sequence : Nat} {cap : ℕ+} {request nextRequest : GetEventsRequest Filter}
      {accEvents newEvents : List SorobanRpcEventResponse} {response : GetEventsResponse}
      (hcall : s.calls[i]? = some (.fetching sequence request accEvents))
      (hpage : s.getPage rpc sequence cap request = .ok response)
      (hnext : onResponse sequence request accEvents response = .next nextRequest newEvents) :
      Moves s (.page i cap) (s.setCall i (.fetching sequence nextRequest newEvents))
  | fail {i sequence : Nat} {request : GetEventsRequest Filter} {accEvents : List SorobanRpcEventResponse} {e : JsError}
      (hcall : s.calls[i]? = some (.fetching sequence request accEvents)) :
      Moves s (.fail i e) (s.setCall i (.failed sequence e))
  | finish {i sequence : Nat} {events eventsToCache : CachedEventsResponse}
      (hcall : s.calls[i]? = some (.fetched sequence events eventsToCache)) :
      Moves s (.finish i)
        ({ s with eventsCache := updateEventCache s.eventsCache eventsToCache (some sequence) }.setCall i
          (.resolved sequence events))
  | close {events : List SorobanRpcEventResponse} (hledger : ∀ event ∈ events, event.ledger = s.log.newestLedger + 1)
      (hids : ((s.log.events ++ events).map SorobanRpcEventResponse.id).Nodup) :
      Moves s (.close events) { s with log := s.log.close events hledger hids }
  | prune {oldestLedger : Nat} (hfrom : s.oldestLedger ≤ oldestLedger) (hto : oldestLedger ≤ s.log.newestLedger) :
      Moves s (.prune oldestLedger) { s with oldestLedger }

variable {rpc}

theorem moves_of_step {s s' : EventsSystem Filter} {label : Label Filter} (h : step rpc s label = some s') :
    Moves rpc s label s' := by
  cases label with
  | start height filters limit =>
    simp only [step, beginGetEvents, eventsRequest, Option.getD_none] at h
    cases hl : AList.lookup height s.eventsCache with
    | none =>
      simp only [hl, Option.some.injEq] at h
      subst h
      exact Moves.miss hl
    | some entry =>
      simp only [hl, Option.some.injEq] at h
      subst h
      exact Moves.hit hl
  | page i cap =>
    simp only [step] at h
    split at h
    · rename_i sequence request accEvents hcall
      simp only [Option.some.injEq] at h
      subst h
      unfold receivePage
      cases hpage : s.getPage rpc sequence cap request with
      | error e => exact Moves.refused hcall hpage
      | ok response =>
        simp only
        cases hresponse : onResponse sequence request accEvents response with
        | done events eventsToCache => exact Moves.last hcall hpage hresponse
        | next nextRequest newEvents => exact Moves.more hcall hpage hresponse
    · cases h
  | fail i e =>
    simp only [step] at h
    split at h
    · rename_i hcall
      simp only [Option.some.injEq] at h
      subst h
      exact Moves.fail hcall
    · cases h
  | finish i =>
    simp only [step] at h
    split at h
    · rename_i hcall
      simp only [Option.some.injEq] at h
      subst h
      exact Moves.finish hcall
    · cases h
  | close events =>
    simp only [step] at h
    split at h
    · rename_i hc
      simp only [Option.some.injEq] at h
      subst h
      exact Moves.close hc.1 hc.2
    · cases h
  | prune oldestLedger =>
    simp only [step] at h
    split at h
    · rename_i hc
      simp only [Option.some.injEq] at h
      subst h
      exact Moves.prune hc.1 hc.2
    · cases h

theorem getPage_eq_ok {s : EventsSystem Filter} {sequence : Nat} {cap : ℕ+} {request : GetEventsRequest Filter}
    {response : GetEventsResponse} (h : s.getPage rpc sequence cap request = .ok response) :
    answer s.log rpc (cappedPage cap request) request = .ok response := by
  unfold EventsSystem.getPage at h
  split at h
  · cases h
  · exact h

/-! ## Every run -/

inductive CallServed (rpc : RpcFilters Filter) (log : EventLog) : Call Filter → Prop
  | fetching {L : Nat} {request : GetEventsRequest Filter} {accEvents : List SorobanRpcEventResponse}
      (hlimit : request.limit ≠ some 0) (hclosed : request.cursor ≠ none → L ≤ log.newestLedger)
      (hfetching : Fetching (log.view rpc request.filters) L request accEvents) :
      CallServed rpc log (.fetching L request accEvents)
  | fetched {L : Nat} {events eventsToCache : CachedEventsResponse}
      (hlater : ∀ event ∈ eventsToCache.events, event ∈ log.events ∧ L < event.ledger) :
      CallServed rpc log (.fetched L events eventsToCache)
  | resolved {L : Nat} {response : CachedEventsResponse} : CallServed rpc log (.resolved L response)
  | failed {L : Nat} {e : JsError} : CallServed rpc log (.failed L e)

/-- The cache holds events of the log, each once and under its own ledger. -/
structure Served (rpc : RpcFilters Filter) (s : EventsSystem Filter) : Prop where
  cache : ∀ ledger entry, AList.lookup ledger s.eventsCache = some entry →
    (entry.events.map SorobanRpcEventResponse.id).Nodup ∧
      ∀ event ∈ entry.events, event ∈ s.log.events ∧ event.ledger = ledger
  calls : ∀ call ∈ s.calls, CallServed rpc s.log call

theorem CallServed.close {log : EventLog} {events : List SorobanRpcEventResponse} {call : Call Filter}
    (hledger : ∀ event ∈ events, event.ledger = log.newestLedger + 1)
    (hids : ((log.events ++ events).map SorobanRpcEventResponse.id).Nodup) (h : CallServed rpc log call) :
    CallServed rpc (log.close events hledger hids) call := by
  cases h with
  | @fetching L request accEvents hlimit hclosed hfetching =>
    refine CallServed.fetching hlimit (fun h => Nat.le_succ_of_le (hclosed h)) ?_
    have hview : (log.close events hledger hids).view rpc request.filters =
        log.view rpc request.filters ++ events.filter (rpc.selects request.filters) := List.filter_append _ _
    rw [hview]
    refine hfetching.append_right (fun hcursor event he => ?_)
    have := hclosed hcursor
    have := hledger event (List.mem_filter.1 he).1
    omega
  | fetched hlater =>
    exact CallServed.fetched (fun event he => ⟨List.mem_append_left _ (hlater event he).1, (hlater event he).2⟩)
  | resolved => exact CallServed.resolved
  | failed => exact CallServed.failed

theorem forall_mem_set {P : Call Filter → Prop} {calls : List (Call Filter)} {call : Call Filter} (i : Nat)
    (h : ∀ call ∈ calls, P call) (hcall : P call) : ∀ call' ∈ calls.set i call, P call' := by
  intro call' hc
  rcases List.mem_or_eq_of_mem_set hc with hc | rfl
  · exact h call' hc
  · exact hcall

theorem forall_mem_append {P : Call Filter → Prop} {calls : List (Call Filter)} {call : Call Filter}
    (h : ∀ call ∈ calls, P call) (hcall : P call) : ∀ call' ∈ calls ++ [call], P call' := by
  intro call' hc
  rcases List.mem_append.1 hc with hc | hc
  · exact h call' hc
  · rw [List.mem_singleton.1 hc]
    exact hcall

/-- **A finished fetch leaves the cache with events of the log**, each once and under its own ledger. -/
theorem cache_served {log : EventLog} {eventsCache : EventsCache} {eventsToCache : CachedEventsResponse} {L : Nat}
    (hcache : ∀ ledger entry, AList.lookup ledger eventsCache = some entry →
      (entry.events.map SorobanRpcEventResponse.id).Nodup ∧
        ∀ event ∈ entry.events, event ∈ log.events ∧ event.ledger = ledger)
    (hlater : ∀ event ∈ eventsToCache.events, event ∈ log.events ∧ L < event.ledger) (ledger : Nat)
    (entry : CachedEventsResponse)
    (h : AList.lookup ledger (updateEventCache eventsCache eventsToCache (some L)) = some entry) :
    (entry.events.map SorobanRpcEventResponse.id).Nodup ∧
      ∀ event ∈ entry.events, event ∈ log.events ∧ event.ledger = ledger := by
  rw [lookup_updateEventCache eventsCache eventsToCache L ledger
    (fun event he => Nat.ne_of_gt (hlater event he).2)] at h
  split at h
  · exact hcache ledger entry h
  · simp only [Option.some.injEq] at h
    subst h
    have hold : ((entryOr eventsCache ledger eventsToCache.latestLedger).events.map SorobanRpcEventResponse.id).Nodup ∧
        ∀ event ∈ (entryOr eventsCache ledger eventsToCache.latestLedger).events,
          event ∈ log.events ∧ event.ledger = ledger := by
      unfold entryOr
      cases hl : AList.lookup ledger eventsCache with
      | none => exact ⟨List.nodup_nil, fun _ he => absurd he List.not_mem_nil⟩
      | some old => exact hcache ledger old hl
    refine ⟨Keyed.nodup_mergeOn _ hold.1, fun event he => ?_⟩
    rcases Keyed.mem_of_mem_mergeOn _ he with he | he
    · exact hold.2 event he
    · obtain ⟨hmem, hl⟩ := (Keyed.mem_block _).1 he
      exact ⟨(hlater event hmem).1, hl⟩

/-- **Every step keeps the cache and the calls to what the server holds**, whatever the filters and the pages. -/
theorem served_step {s s' : EventsSystem Filter} {label : Label Filter} (hi : Served rpc s) (h : Moves rpc s label s') :
    Served rpc s' := by
  cases h with
  | hit =>
    exact ⟨Keyed.Table.forall_lookup_erase hi.cache _, forall_mem_append hi.calls CallServed.resolved⟩
  | @miss height filters limit hnone =>
    have hlimit : limit.map PNat.val ≠ some 0 := by simp
    exact ⟨hi.cache, forall_mem_append hi.calls (CallServed.fetching hlimit (fun h => absurd rfl h)
      (Fetching.first filters _))⟩
  | refused hcall hpage => exact ⟨hi.cache, forall_mem_set _ hi.calls CallServed.failed⟩
  | @last i L cap request accEvents response events eventsToCache hcall hpage hdone =>
    refine ⟨hi.cache, forall_mem_set _ hi.calls (CallServed.fetched (fun event he => ?_))⟩
    cases hi.calls _ (List.mem_of_getElem? hcall) with
    | fetching hlimit hclosed hfetching =>
      obtain ⟨before, after, hp, -⟩ := answer_pageOf hfetching (getPage_eq_ok hpage)
      obtain ⟨hmem, hlt⟩ := (onResponse_toCache hp hdone).2 event he
      have hview : event ∈ s.log.view rpc request.filters := by
        rw [hp.hview]
        exact List.mem_append_left _ (List.mem_append_right _ hmem)
      exact ⟨(List.mem_filter.1 hview).1, hlt⟩
  | @more i L cap request nextRequest accEvents newEvents response hcall hpage hnext =>
    refine ⟨hi.cache, forall_mem_set _ hi.calls ?_⟩
    cases hi.calls _ (List.mem_of_getElem? hcall) with
    | fetching hlimit hclosed hfetching =>
      have hanswer := getPage_eq_ok hpage
      obtain ⟨before, after, hp, hcursor⟩ := answer_pageOf hfetching hanswer
      obtain ⟨hf, hfilters, hlimit', -⟩ := onResponse_next hp hcursor hnext
      exact CallServed.fetching (hlimit' ▸ hlimit) (fun _ => answer_closed hfetching hclosed hanswer) (hfilters ▸ hf)
  | fail hcall => exact ⟨hi.cache, forall_mem_set _ hi.calls CallServed.failed⟩
  | @finish i L events eventsToCache hcall =>
    cases hi.calls _ (List.mem_of_getElem? hcall) with
    | fetched hlater => exact ⟨cache_served hi.cache hlater, forall_mem_set _ hi.calls CallServed.resolved⟩
  | close hledger hids =>
    refine ⟨fun ledger entry hl => ?_, fun call hc => (hi.calls call hc).close hledger hids⟩
    obtain ⟨hnodup, hmem⟩ := hi.cache ledger entry hl
    exact ⟨hnodup, fun event he => ⟨List.mem_append_left _ (hmem event he).1, (hmem event he).2⟩⟩
  | prune => exact ⟨hi.cache, hi.calls⟩

theorem lookup_init (log : EventLog) (ledger : Nat) (entry : CachedEventsResponse) :
    AList.lookup ledger (EventsSystem.init Filter log).eventsCache ≠ some entry := fun h =>
  nomatch (AList.lookup_empty ledger).symm.trans h

theorem served_init (log : EventLog) : Served rpc (EventsSystem.init Filter log) :=
  ⟨fun ledger entry h => absurd h (lookup_init log ledger entry), fun _ h => absurd h List.not_mem_nil⟩

theorem served_of_run {log : EventLog} {s : EventsSystem Filter} {labels : List (Label Filter)}
    (h : run (step rpc) (EventsSystem.init Filter log) labels = some s) : Served rpc s :=
  Runs.run_invariant (fun _ _ _ hi hs => served_step hi (moves_of_step hs)) (served_init log) h

/-! ## Runs of whole pages -/

inductive CallOk (log : EventLog) : Call Filter → Prop
  | fetching {L : Nat} {request : GetEventsRequest Filter} {accEvents : List SorobanRpcEventResponse}
      (hfilters : request.filters = []) : CallOk log (.fetching L request accEvents)
  | fetched {L : Nat} {events eventsToCache : CachedEventsResponse} (hclosed : L ≤ log.newestLedger)
      (hevents : events.events = ledgerEvents L log.events)
      (hwhole : Whole SorobanRpcEventResponse.ledger log.events eventsToCache.events) :
      CallOk log (.fetched L events eventsToCache)
  | resolved {L : Nat} {response : CachedEventsResponse} (hclosed : L ≤ log.newestLedger)
      (hevents : response.events = ledgerEvents L log.events) : CallOk log (.resolved L response)
  | failed {L : Nat} {e : JsError} : CallOk log (.failed L e)

/-- Every ledger the cache holds, it holds all of; every call holds what is right for the log. -/
structure Consistent (s : EventsSystem Filter) : Prop where
  cache : ∀ ledger entry, AList.lookup ledger s.eventsCache = some entry →
    ledger ≤ s.log.newestLedger ∧ entry.events = ledgerEvents ledger s.log.events
  calls : ∀ call ∈ s.calls, CallOk s.log call

theorem ledgerEvents_close {log : EventLog} {events : List SorobanRpcEventResponse} {L : Nat}
    (hledger : ∀ event ∈ events, event.ledger = log.newestLedger + 1) (hL : L ≤ log.newestLedger) :
    ledgerEvents L (log.events ++ events) = ledgerEvents L log.events := by
  have hnone : ledgerEvents L events = [] := by
    rw [Keyed.block_eq_nil]
    intro event he
    have := hledger event he
    omega
  rw [ledgerEvents_append, hnone, List.append_nil]

theorem CallOk.close {log : EventLog} {events : List SorobanRpcEventResponse} {call : Call Filter}
    (hledger : ∀ event ∈ events, event.ledger = log.newestLedger + 1)
    (hids : ((log.events ++ events).map SorobanRpcEventResponse.id).Nodup) (hserved : CallServed rpc log call)
    (h : CallOk log call) : CallOk (log.close events hledger hids) call := by
  cases h with
  | fetching hfilters => exact CallOk.fetching hfilters
  | fetched hclosed hevents hwhole =>
    cases hserved with
    | fetched hlater =>
      refine CallOk.fetched (Nat.le_succ_of_le hclosed) ?_ ?_
      · rw [hevents]
        exact (ledgerEvents_close hledger hclosed).symm
      · refine hwhole.append_right _ (fun event he event' he' => ?_)
        have := log.closed event (hlater event he).1
        have := hledger event' he'
        omega
  | resolved hclosed hevents =>
    refine CallOk.resolved (Nat.le_succ_of_le hclosed) ?_
    rw [hevents]
    exact (ledgerEvents_close hledger hclosed).symm
  | failed => exact CallOk.failed

/-- **A finished fetch leaves the cache with whole ledgers**: merged into a whole entry, a whole ledger changes
nothing. -/
theorem cache_update {log : EventLog} {eventsCache : EventsCache} {eventsToCache : CachedEventsResponse} {L : Nat}
    (hcache : ∀ ledger entry, AList.lookup ledger eventsCache = some entry →
      ledger ≤ log.newestLedger ∧ entry.events = ledgerEvents ledger log.events)
    (hwhole : Whole SorobanRpcEventResponse.ledger log.events eventsToCache.events)
    (hlater : ∀ event ∈ eventsToCache.events, event ∈ log.events ∧ L < event.ledger) (ledger : Nat)
    (entry : CachedEventsResponse)
    (h : AList.lookup ledger (updateEventCache eventsCache eventsToCache (some L)) = some entry) :
    ledger ≤ log.newestLedger ∧ entry.events = ledgerEvents ledger log.events := by
  rw [lookup_updateEventCache eventsCache eventsToCache L ledger
    (fun event he => Nat.ne_of_gt (hlater event he).2)] at h
  split at h
  · exact hcache ledger entry h
  · rename_i hne
    have hblock : ledgerEvents ledger eventsToCache.events = ledgerEvents ledger log.events := hwhole ledger hne
    simp only [Option.some.injEq] at h
    subst h
    obtain ⟨event, he⟩ := List.exists_mem_of_ne_nil _ hne
    obtain ⟨hmem, rfl⟩ := (Keyed.mem_block _).1 he
    refine ⟨log.closed event (hlater event hmem).1, ?_⟩
    rw [CachedEventsResponse.merge, hblock]
    cases hl : AList.lookup event.ledger eventsCache with
    | none =>
      rw [entryOr, hl]
      exact Keyed.mergeOn_nil _ (log.distinctIds.sublist (List.filter_sublist.map _))
    | some old =>
      rw [entryOr, hl, Option.getD_some, (hcache _ old hl).2]
      exact Keyed.mergeOn_self _ _

theorem consistent_step {s s' : EventsSystem Filter} {label : Label Filter} (hserved : Served rpc s)
    (hi : Consistent s) (hpages : WholePages s label) (h : Moves rpc s label s') : Consistent s' := by
  cases h with
  | @hit height _ _ entry hentry =>
    obtain ⟨hclosed, hevents⟩ := hi.cache height entry hentry
    exact ⟨Keyed.Table.forall_lookup_erase hi.cache _,
      forall_mem_append hi.calls (CallOk.resolved hclosed hevents)⟩
  | miss hnone => exact ⟨hi.cache, forall_mem_append hi.calls (CallOk.fetching hpages)⟩
  | refused hcall hpage => exact ⟨hi.cache, forall_mem_set _ hi.calls CallOk.failed⟩
  | @last i L cap request accEvents response events eventsToCache hcall hpage hdone =>
    refine ⟨hi.cache, forall_mem_set _ hi.calls ?_⟩
    have hmem := List.mem_of_getElem? hcall
    cases hserved.calls _ hmem with
    | fetching hlimit hclosed hfetching =>
      cases hi.calls _ hmem with
      | fetching hfilters =>
        have hanswer := getPage_eq_ok hpage
        have hlength : request.limit.getD DEFAULT_PAGE_SIZE = cappedPage cap request := (hpages _ hcall).symm
        have hview : s.log.view rpc request.filters = s.log.events := by rw [hfilters, view_nil]
        obtain ⟨before, after, hp, -⟩ := answer_pageOf hfetching hanswer
        rw [hview] at hp
        have hwhole := onResponse_whole s.log.sorted hlength hp hdone
        refine CallOk.fetched (answer_closed hfetching hclosed hanswer) ?_ hwhole
        rw [onResponse_done (pageCap_pos cap hlimit) s.log.sorted hp hdone]
        rfl
  | @more i L cap request nextRequest accEvents newEvents response hcall hpage hnext =>
    refine ⟨hi.cache, forall_mem_set _ hi.calls ?_⟩
    have hmem := List.mem_of_getElem? hcall
    cases hserved.calls _ hmem with
    | fetching hlimit hclosed hfetching =>
      cases hi.calls _ hmem with
      | fetching hfilters =>
        obtain ⟨before, after, hp, hcursor⟩ := answer_pageOf hfetching (getPage_eq_ok hpage)
        exact CallOk.fetching ((onResponse_next hp hcursor hnext).2.1.trans hfilters)
  | fail hcall => exact ⟨hi.cache, forall_mem_set _ hi.calls CallOk.failed⟩
  | @finish i L events eventsToCache hcall =>
    have hmem := List.mem_of_getElem? hcall
    cases hserved.calls _ hmem with
    | fetched hlater =>
      cases hi.calls _ hmem with
      | fetched hclosed hevents hwhole =>
        exact ⟨cache_update hi.cache hwhole hlater, forall_mem_set _ hi.calls (CallOk.resolved hclosed hevents)⟩
  | close hledger hids =>
    refine ⟨fun ledger entry hl => ?_, fun call hc => (hi.calls call hc).close hledger hids (hserved.calls call hc)⟩
    obtain ⟨hclosed, hevents⟩ := hi.cache ledger entry hl
    refine ⟨Nat.le_succ_of_le hclosed, ?_⟩
    rw [hevents]
    exact (ledgerEvents_close hledger hclosed).symm
  | prune => exact ⟨hi.cache, hi.calls⟩

theorem consistent_init (log : EventLog) : Consistent (EventsSystem.init Filter log) :=
  ⟨fun ledger entry h => absurd h (lookup_init log ledger entry), fun _ h => absurd h List.not_mem_nil⟩

theorem consistent_of_run {log : EventLog} {s : EventsSystem Filter} {labels : List (Label Filter)}
    (h : run (step rpc) (EventsSystem.init Filter log) labels = some s)
    (hpages : AllSteps (step rpc) WholePages (EventsSystem.init Filter log) labels) : Consistent s := by
  have hkeep : ∀ (t : EventsSystem Filter) (label : Label Filter) (t' : EventsSystem Filter),
      Served rpc t ∧ Consistent t → WholePages t label → step rpc t label = some t' → Served rpc t' ∧ Consistent t' :=
    fun _ _ _ hi hok hs =>
      ⟨served_step hi.1 (moves_of_step hs), consistent_step hi.1 hi.2 hok (moves_of_step hs)⟩
  exact (Runs.run_invariant_of hkeep ⟨served_init log, consistent_init log⟩ hpages h).2

/-- **Every call that resolves for a ledger returns exactly that ledger's events, in log order**, in every
interleaving of calls without filters, whole pages, failures, retries and new ledgers. -/
theorem resolved_events {log : EventLog} {s : EventsSystem Filter} {labels : List (Label Filter)}
    (h : run (step rpc) (EventsSystem.init Filter log) labels = some s)
    (hpages : AllSteps (step rpc) WholePages (EventsSystem.init Filter log) labels) {ledger : Nat}
    {response : CachedEventsResponse} (hcall : Call.resolved ledger response ∈ s.calls) :
    response.events = ledgerEvents ledger s.log.events := by
  cases (consistent_of_run h hpages).calls _ hcall with
  | resolved _ hevents => exact hevents

end System

/-! ## A run -/

def sampleHash : TxHash := ⟨"a0", by decide⟩

def sampleEvent (id : String) (ledger : Nat) : SorobanRpcEventResponse := ⟨id, ledger, sampleHash, 0, none, []⟩

def sampleLog : EventLog where
  events := [sampleEvent "e1" 1, sampleEvent "e2" 1, sampleEvent "e3" 2, sampleEvent "e4" 3]
  newestLedger := 3
  sorted := by decide
  closed := by decide
  distinctIds := by decide

def sampleLimit : ℕ+ := 3

def sampleRun (labels : List (Label Unit)) : EventsSystem Unit :=
  (run (step unfiltered) (EventsSystem.init Unit sampleLog) labels).getD (EventsSystem.init Unit sampleLog)

/-- The call for ledger 2 fails on its second page and is retried; by then the call for ledger 1 has cached it. -/
def retriedLabels : List (Label Unit) :=
  [.start 1 [] sampleLimit, .start 2 [] sampleLimit, .page 0 sampleLimit, .page 1 sampleLimit, .page 0 sampleLimit,
    .fail 1 ⟨"timeout"⟩, .finish 0, .start 2 [] sampleLimit]

theorem resolved_events_retried :
    Call.resolved 2 ⟨[sampleEvent "e3" 2], 3⟩ ∈ (sampleRun retriedLabels).calls ∧
      [sampleEvent "e3" 2] = ledgerEvents 2 (sampleRun retriedLabels).log.events := by
  have hrun : run (step unfiltered) (EventsSystem.init Unit sampleLog) retriedLabels =
      some (sampleRun retriedLabels) := rfl
  have hpages : AllSteps (step unfiltered) WholePages (EventsSystem.init Unit sampleLog) retriedLabels := by decide
  have hcall : Call.resolved 2 ⟨[sampleEvent "e3" 2], 3⟩ ∈ (sampleRun retriedLabels).calls :=
    List.mem_of_getElem? (i := 2) rfl
  exact ⟨hcall, resolved_events hrun hpages hcall⟩

end SubqlStellar
