import SubqlStellar.Records
import SubqlStellar.Tables
/-!
# SorobanServer — the events client and its cache

`SorobanServer.getEvents` answers a ledger's events from `eventsCache`, deleting the entry it uses, or fetches them page
by page; the events of later ledgers that came with the pages are cached (`updateEventCache`).  `fetchEventsForSequence`
is one recursion whose body, between two answers of the RPC server, is `onResponse`: a run of it and an interleaving of
several calls take the same steps.
-/
namespace SubqlStellar

open Keyed (Table)

def DEFAULT_PAGE_SIZE : Nat := 150

/-- `rpc.Server.GetEventsRequest`.  A cursor is a place in the server's events, opaque to the client. -/
structure GetEventsRequest (Filter : Type) where
  startLedger : Option Nat
  endLedger : Option Nat
  filters : List Filter
  cursor : Option Nat
  limit : Option Nat
deriving DecidableEq

structure GetEventsResponse where
  events : List SorobanRpcEventResponse
  latestLedger : Nat
  cursor : Nat
deriving DecidableEq

structure CachedEventsResponse where
  events : List SorobanRpcEventResponse
  latestLedger : Nat
deriving DecidableEq

abbrev EventsCache := Table Nat CachedEventsResponse

inductive Fetch (Filter : Type) where
  | done (events eventsToCache : CachedEventsResponse)
  | next (nextRequest : GetEventsRequest Filter) (newEvents : List SorobanRpcEventResponse)

section Server

variable {Filter : Type}

/-- The events of a full page's last ledger are dropped: the page may end inside it. -/
def discardLast (page eventsToCache : List SorobanRpcEventResponse) (pageLimit : Nat) : List SorobanRpcEventResponse :=
  if page.length = pageLimit then
    match page.getLast? with
    | some lastEvent => eventsToCache.filter (fun event => decide (event.ledger ≠ lastEvent.ledger))
    | none           => eventsToCache
  else eventsToCache

/-- `fetchEventsForSequence`, from one answer of the server on. -/
def onResponse (sequence : Nat) (request : GetEventsRequest Filter) (accEvents : List SorobanRpcEventResponse)
    (response : GetEventsResponse) : Fetch Filter :=
  let pageLimit := request.limit.getD DEFAULT_PAGE_SIZE
  let events := response.events.filter (fun event => decide (event.ledger = sequence))
  let eventsToCache := response.events.filter (fun event => decide (event.ledger ≠ sequence))
  let newEvents := accEvents ++ events
  if eventsToCache ≠ [] then
    .done ⟨newEvents, response.latestLedger⟩
      ⟨discardLast response.events eventsToCache pageLimit, response.latestLedger⟩
  else if response.events.length = 0 then
    .done ⟨newEvents, response.latestLedger⟩ ⟨[], response.latestLedger⟩
  else
    .next { request with cursor := some response.cursor, startLedger := none, endLedger := none } newEvents

/-- `fetchEventsForSequence`, against a server `getPage`, for at most `fuel` pages. -/
def fetchEventsForSequence (getPage : GetEventsRequest Filter → Except JsError GetEventsResponse) (sequence : Nat) :
    Nat → GetEventsRequest Filter → List SorobanRpcEventResponse →
      Option (Except JsError (CachedEventsResponse × CachedEventsResponse))
  | 0, _, _ => none
  | fuel + 1, request, accEvents =>
    match getPage request with
    | .error e => some (.error e)
    | .ok response =>
      match onResponse sequence request accEvents response with
      | .done events eventsToCache     => some (.ok (events, eventsToCache))
      | .next nextRequest newEvents => fetchEventsForSequence getPage sequence fuel nextRequest newEvents

/-- `ignoreHeight && ignoreHeight === ledger`: a height of `0` is falsy and ignores nothing. -/
def ignores (ignoreHeight : Option Nat) (ledger : Nat) : Bool :=
  ignoreHeight.any (fun height => decide (height ≠ 0) && decide (height = ledger))

def cacheEvent (latestLedger : Nat) (ignoreHeight : Option Nat) (eventsCache : EventsCache)
    (event : SorobanRpcEventResponse) : EventsCache :=
  if ignores ignoreHeight event.ledger then eventsCache
  else
    let entry := (AList.lookup event.ledger eventsCache).getD ⟨[], latestLedger⟩
    let eventExists := entry.events.any (fun existingEvent => decide (existingEvent.id = event.id))
    AList.insert event.ledger
      (if eventExists then entry else { entry with events := entry.events ++ [event] }) eventsCache

def updateEventCache (eventsCache : EventsCache) (response : CachedEventsResponse) (ignoreHeight : Option Nat) :
    EventsCache :=
  response.events.foldl (cacheEvent response.latestLedger ignoreHeight) eventsCache

/-- `getEvents` up to its first await: it throws, answers from the cache, or goes on to fetch. -/
inductive Begin (Filter : Type) where
  | throws (e : JsError)
  | hit (cachedEvents : CachedEventsResponse) (eventsCache : EventsCache)
  | miss (sequence : Nat) (request : GetEventsRequest Filter)

def beginGetEvents (eventsCache : EventsCache) (request : GetEventsRequest Filter) : Begin Filter :=
  match request.startLedger with
  | none => .throws ⟨"Get soraban event failed, block sequence is missing"⟩
  | some sequence =>
    match AList.lookup sequence eventsCache with
    | some cachedEvents => .hit cachedEvents (AList.erase sequence eventsCache)
    | none => .miss sequence { request with endLedger := some (request.endLedger.getD (sequence + 1)) }

/-- `getEvents` as one call, with no other call in between, for at most `fuel` pages. -/
def getEvents (getPage : GetEventsRequest Filter → Except JsError GetEventsResponse) (fuel : Nat)
    (eventsCache : EventsCache) (request : GetEventsRequest Filter) :
    Option (Except JsError CachedEventsResponse × EventsCache) :=
  match beginGetEvents eventsCache request with
  | .throws e => some (.error e, eventsCache)
  | .hit cachedEvents eventsCache => some (.ok cachedEvents, eventsCache)
  | .miss sequence request =>
    match fetchEventsForSequence getPage sequence fuel request [] with
    | none => none
    | some (.error e) => some (.error e, eventsCache)
    | some (.ok (events, eventsToCache)) =>
      some (.ok events, updateEventCache eventsCache eventsToCache (some sequence))

end Server

end SubqlStellar
