import SubqlStellar.BlockAssembly
import SubqlStellar.SorobanServer
/-!
# StellarApi — one ledger fetched and wrapped

`fetchAndWrapLedger` reads a ledger, its transactions, its operations and its effects from Horizon, page by page, and
its events from the Soroban server where one of the operations invokes a host function.  The two servers are parameters;
the events cache is the state of a run; a run with too little fuel for its pages is undefined.
-/
namespace SubqlStellar

structure HorizonPage (α : Type) where
  records : List α
  next : Nat

/-- `Horizon.Server`: the calls the indexer makes, at a ledger, with a page limit and from a place in the collection. -/
structure HorizonServer where
  ledger : Nat → Except JsError LedgerRecord
  transactions : Nat → Nat → Option Nat → Except JsError (HorizonPage TransactionRecord)
  operations : Nat → Nat → Option Nat → Except JsError (HorizonPage OperationRecord)
  effects : Nat → Nat → Option Nat → Except JsError (HorizonPage EffectRecord)

/-- `rpc.Server`, under `SorobanServer`. -/
structure SorobanClient (Filter : Type) where
  getPage : GetEventsRequest Filter → Except JsError GetEventsResponse
  getLatestLedger : Except JsError Nat

structure StellarApi (Filter : Type) where
  stellarClient : HorizonServer
  _sorobanClient : Option (SorobanClient Filter)
  pageLimit : Nat

/-- `config?.pageLimit || DEFAULT_PAGE_SIZE`: no limit and a limit of `0` are falsy. -/
def configuredPageLimit (pageLimit : Option Nat) : Nat :=
  match pageLimit with
  | none | some 0  => DEFAULT_PAGE_SIZE
  | some (n + 1)   => n + 1

/-- An async call of the api: it may throw, changes the events cache, and may not have ended yet. -/
abbrev ApiM := ExceptT JsError (StateT EventsCache Option)

def ApiM.ofExcept {α : Type} (result : Except JsError α) : ApiM α := fun eventsCache => some (result, eventsCache)

section Fetch

variable {Filter : Type} {α : Type}

def fetchPages (call : Option Nat → Except JsError (HorizonPage α)) :
    Nat → HorizonPage α → List α → Option (Except JsError (List α))
  | 0, _, _ => none
  | fuel + 1, page, records =>
    if page.records.length ≠ 0 then
      match call (some page.next) with
      | .error e => some (.error e)
      | .ok next => fetchPages call fuel next (records ++ page.records)
    else some (.ok records)

def fetchCollection (fuel : Nat) (call : Option Nat → Except JsError (HorizonPage α)) : ApiM (List α) :=
  fun eventsCache =>
  match call none with
  | .error e => some (.error e, eventsCache)
  | .ok page => (fetchPages call fuel page []).map (fun result => (result, eventsCache))

def fetchLedger (api : StellarApi Filter) (sequence : Nat) : ApiM LedgerRecord :=
  ApiM.ofExcept (api.stellarClient.ledger sequence)

def fetchTransactionsForLedger (api : StellarApi Filter) (fuel sequence : Nat) : ApiM (List TransactionRecord) :=
  fetchCollection fuel (api.stellarClient.transactions sequence api.pageLimit)

def fetchOperationsForLedger (api : StellarApi Filter) (fuel sequence : Nat) : ApiM (List OperationRecord) :=
  fetchCollection fuel (api.stellarClient.operations sequence api.pageLimit)

def fetchEffectsForLedger (api : StellarApi Filter) (fuel sequence : Nat) : ApiM (List EffectRecord) :=
  fetchCollection fuel (api.stellarClient.effects sequence api.pageLimit)

def sorobanClient (api : StellarApi Filter) : ApiM (SorobanClient Filter) :=
  match api._sorobanClient with
  | some client => return client
  | none        => throw ⟨"Soraban client is not initialized"⟩

def SorobanClient.getEvents (client : SorobanClient Filter) (fuel : Nat) (request : GetEventsRequest Filter) :
    ApiM CachedEventsResponse := fun eventsCache => SubqlStellar.getEvents client.getPage fuel eventsCache request

/-- The events of `getAndWrapEvents`, which `assembleBlock` wraps. -/
def getAndWrapEvents (api : StellarApi Filter) (fuel height : Nat) : ApiM (List SorobanRpcEventResponse) := do
  let client ← sorobanClient api
  return (← client.getEvents fuel ⟨some height, none, [], none, some api.pageLimit⟩).events

def startsAfterNewest (sequence latestLedger : Nat) : JsError where
  message :=
    s!"The requested events for ledger number {sequence} is not available on the current soroban node.\n" ++
    s!"                This is because you're trying to access a ledger that is after the latest ledger number " ++
    s!"{latestLedger} stored in this node.\n" ++
    s!"                To resolve this issue, please check you endpoint node start height"

def startsBeforeOldest (sequence : Nat) : JsError where
  message :=
    s!"The requested events for ledger number {sequence} is not available on the current soroban node.\n" ++
    "                This is because you're trying to access a ledger that is older than the oldest ledger stored in " ++
    "this node.\n" ++
    "                To resolve this issue, you can either:\n" ++
    "                1. Increase the start ledger to a more recent one, or\n" ++
    "                2. Connect to a different node that might have a longer history of ledgers."

def explainEventsError (api : StellarApi Filter) (sequence : Nat) (e : JsError) :
    ApiM (List SorobanRpcEventResponse) := do
  if e.message = "start is after newest ledger" then
    let latestLedger ← ApiM.ofExcept (← sorobanClient api).getLatestLedger
    throw (startsAfterNewest sequence latestLedger)
  if e.message = "start is before oldest ledger" then
    throw (startsBeforeOldest sequence)
  throw e

def hasInvokeHostFunctionOp (operations : List OperationRecord) : Bool :=
  operations.any (fun op => decide (op.type = "invoke_host_function"))

def eventsForSequence (api : StellarApi Filter) (fuel sequence : Nat) (operations : List OperationRecord) :
    ApiM (List SorobanRpcEventResponse) :=
  if hasInvokeHostFunctionOp operations then
    tryCatch (getAndWrapEvents api fuel sequence) (explainEventsError api sequence)
  else pure []

/-- `Promise.all` rejects with the error that comes first in time, here with the first of the list. -/
def fetchAndWrapLedger (api : StellarApi Filter) (fuel sequence : Nat) : ApiM StellarBlock := do
  let ledger ← fetchLedger api sequence
  let transactions ← fetchTransactionsForLedger api fuel sequence
  let operations ← fetchOperationsForLedger api fuel sequence
  let effects ← fetchEffectsForLedger api fuel sequence
  -- the getter throws where there is no client, before the gate is looked at
  let _client ← sorobanClient api
  let events ← eventsForSequence api fuel sequence operations
  return assembleBlock ledger transactions operations effects events

end Fetch

end SubqlStellar
