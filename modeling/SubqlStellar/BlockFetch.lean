import SubqlStellar.StellarApi
/-!
# BlockFetch — what `fetchAndWrapLedger` returns

It returns the block assembled from what it fetched, and fetches the events of a ledger only where one of its operations
invokes a host function (`fetchAndWrapLedger_eq_ok`).
-/
namespace SubqlStellar

namespace ApiM

variable {α β : Type} {x : ApiM α} {f : α → ApiM β} {eventsCache eventsCache' : EventsCache}

theorem bind_apply (x : ApiM α) (f : α → ApiM β) (eventsCache : EventsCache) :
    (x >>= f) eventsCache = match x eventsCache with
      | none => none
      | some (.error e, eventsCache') => some (.error e, eventsCache')
      | some (.ok a, eventsCache') => f a eventsCache' := by
  show (x eventsCache).bind _ = _
  cases x eventsCache with
  | none => rfl
  | some result =>
    obtain ⟨result, eventsCache'⟩ := result
    cases result <;> rfl

theorem bind_of_ok {a : α} (h : x eventsCache = some (.ok a, eventsCache')) :
    (x >>= f) eventsCache = f a eventsCache' := by
  rw [bind_apply, h]

theorem bind_of_error {e : JsError} (h : x eventsCache = some (.error e, eventsCache')) :
    (x >>= f) eventsCache = some (.error e, eventsCache') := by
  rw [bind_apply, h]

theorem bind_eq_ok {b : β} : (x >>= f) eventsCache = some (.ok b, eventsCache') ↔
    ∃ a between, x eventsCache = some (.ok a, between) ∧ f a between = some (.ok b, eventsCache') := by
  rw [bind_apply]
  constructor
  · intro h
    split at h
    · cases h
    · cases h
    · rename_i a between hx
      exact ⟨a, between, hx, h⟩
  · rintro ⟨a, between, hx, hf⟩
    rw [hx]
    exact hf

theorem pure_apply (a : α) (eventsCache : EventsCache) :
    (pure a : ApiM α) eventsCache = some (.ok a, eventsCache) := rfl

theorem throw_apply (e : JsError) (eventsCache : EventsCache) :
    (throw e : ApiM α) eventsCache = some (.error e, eventsCache) := rfl

theorem tryCatch_apply (x : ApiM α) (handle : JsError → ApiM α) (eventsCache : EventsCache) :
    (tryCatch x handle) eventsCache = match x eventsCache with
      | none => none
      | some (.error e, eventsCache') => handle e eventsCache'
      | some (.ok a, eventsCache') => some (.ok a, eventsCache') := by
  show (x eventsCache).bind _ = _
  cases x eventsCache with
  | none => rfl
  | some result =>
    obtain ⟨result, eventsCache'⟩ := result
    cases result <;> rfl

theorem ofExcept_eq_ok {result : Except JsError α} {a : α} :
    ofExcept result eventsCache = some (.ok a, eventsCache') ↔ result = .ok a ∧ eventsCache' = eventsCache := by
  unfold ofExcept
  simp only [Option.some.injEq, Prod.mk.injEq]
  exact ⟨fun h => ⟨h.1, h.2.symm⟩, fun h => ⟨h.1, h.2.symm⟩⟩

end ApiM

structure LedgerRecords where
  ledger : LedgerRecord
  transactions : List TransactionRecord
  operations : List OperationRecord
  effects : List EffectRecord
  events : List SorobanRpcEventResponse

def LedgerRecords.block (records : LedgerRecords) : StellarBlock :=
  assembleBlock records.ledger records.transactions records.operations records.effects records.events

section Fetch

variable {Filter α : Type} {api : StellarApi Filter} {fuel sequence : Nat} {eventsCache eventsCache' : EventsCache}

/-- The pages of a collection hold `records`. -/
def Collects (fuel : Nat) (call : Option Nat → Except JsError (HorizonPage α)) (records : List α) : Prop :=
  ∃ page, call none = .ok page ∧ fetchPages call fuel page [] = some (.ok records)

theorem fetchCollection_eq_ok {call : Option Nat → Except JsError (HorizonPage α)} {records : List α} :
    fetchCollection fuel call eventsCache = some (.ok records, eventsCache') ↔
      Collects fuel call records ∧ eventsCache' = eventsCache := by
  unfold fetchCollection Collects
  cases hcall : call none with
  | error e => simp
  | ok page =>
    cases hpages : fetchPages call fuel page [] with
    | none => simp [hpages]
    | some result =>
      simp only [Option.map_some, Option.some.injEq, Prod.mk.injEq, Except.ok.injEq, exists_eq_left', hpages]
      exact ⟨fun h => ⟨h.1, h.2.symm⟩, fun h => ⟨h.1, h.2.symm⟩⟩

structure HorizonFetches (api : StellarApi Filter) (fuel sequence : Nat) (records : LedgerRecords) : Prop where
  ledger : api.stellarClient.ledger sequence = .ok records.ledger
  transactions : Collects fuel (api.stellarClient.transactions sequence api.pageLimit) records.transactions
  operations : Collects fuel (api.stellarClient.operations sequence api.pageLimit) records.operations
  effects : Collects fuel (api.stellarClient.effects sequence api.pageLimit) records.effects

structure Fetches (api : StellarApi Filter) (fuel sequence : Nat) (eventsCache : EventsCache) (records : LedgerRecords)
    (eventsCache' : EventsCache) : Prop where
  horizon : HorizonFetches api fuel sequence records
  client : ∃ client, api._sorobanClient = some client
  events : if hasInvokeHostFunctionOp records.operations then
      getAndWrapEvents api fuel sequence eventsCache = some (.ok records.events, eventsCache')
    else records.events = [] ∧ eventsCache' = eventsCache

theorem explainEventsError_ne_ok (e : JsError) (events : List SorobanRpcEventResponse) :
    explainEventsError api sequence e eventsCache ≠ some (.ok events, eventsCache') := by
  unfold explainEventsError
  intro h
  split at h
  · obtain ⟨_, _, _, h⟩ := ApiM.bind_eq_ok.1 h
    obtain ⟨_, _, _, h⟩ := ApiM.bind_eq_ok.1 h
    cases h
  · split at h
    · cases h
    · cases h

theorem sorobanClient_eq_ok {client : SorobanClient Filter} :
    sorobanClient api eventsCache = some (.ok client, eventsCache') ↔
      api._sorobanClient = some client ∧ eventsCache' = eventsCache := by
  unfold sorobanClient
  cases api._sorobanClient with
  | none => simp [ApiM.throw_apply]
  | some client' =>
    simp only [ApiM.pure_apply, Option.some.injEq, Prod.mk.injEq, Except.ok.injEq]
    exact ⟨fun h => ⟨h.1, h.2.symm⟩, fun h => ⟨h.1, h.2.symm⟩⟩

theorem getAndWrapEvents_apply {client : SorobanClient Filter} (h : api._sorobanClient = some client) (height : Nat) :
    getAndWrapEvents api fuel height eventsCache =
      (getEvents client.getPage fuel eventsCache ⟨some height, none, [], none, some api.pageLimit⟩).map
        (fun (result, eventsCache) => (result.map CachedEventsResponse.events, eventsCache)) := by
  unfold getAndWrapEvents
  rw [ApiM.bind_of_ok (sorobanClient_eq_ok.2 ⟨h, rfl⟩), ApiM.bind_apply, SorobanClient.getEvents]
  cases getEvents client.getPage fuel eventsCache ⟨some height, none, [], none, some api.pageLimit⟩ with
  | none => rfl
  | some result =>
    obtain ⟨result, eventsCache'⟩ := result
    cases result <;> rfl

theorem eventsForSequence_eq_ok {operations : List OperationRecord} {events : List SorobanRpcEventResponse} :
    eventsForSequence api fuel sequence operations eventsCache = some (.ok events, eventsCache') ↔
      if hasInvokeHostFunctionOp operations then
        getAndWrapEvents api fuel sequence eventsCache = some (.ok events, eventsCache')
      else events = [] ∧ eventsCache' = eventsCache := by
  unfold eventsForSequence
  by_cases hgate : hasInvokeHostFunctionOp operations = true
  · simp only [hgate, if_true, ApiM.tryCatch_apply]
    constructor
    · intro h
      split at h
      · cases h
      · exact absurd h (explainEventsError_ne_ok _ _)
      · rename_i hevents
        rw [hevents, h]
    · intro h
      rw [h]
  · rw [if_neg hgate, if_neg hgate, ApiM.pure_apply]
    simp only [Option.some.injEq, Prod.mk.injEq, Except.ok.injEq]
    exact ⟨fun h => ⟨h.1.symm, h.2.symm⟩, fun h => ⟨h.1.symm, h.2.symm⟩⟩

/-- **`fetchAndWrapLedger` returns the block assembled from the records it fetches**, and fetches them only where there
is a Soroban client. -/
theorem fetchAndWrapLedger_eq_ok {block : StellarBlock} :
    fetchAndWrapLedger api fuel sequence eventsCache = some (.ok block, eventsCache') ↔
      ∃ records, Fetches api fuel sequence eventsCache records eventsCache' ∧ block = records.block := by
  unfold fetchAndWrapLedger fetchLedger fetchTransactionsForLedger fetchOperationsForLedger fetchEffectsForLedger
  simp only [ApiM.bind_eq_ok, ApiM.ofExcept_eq_ok, fetchCollection_eq_ok, sorobanClient_eq_ok, eventsForSequence_eq_ok]
  constructor
  · rintro ⟨ledger, _, ⟨hledger, rfl⟩, transactions, _, ⟨htransactions, rfl⟩, operations, _, ⟨hoperations, rfl⟩,
      effects, _, ⟨heffects, rfl⟩, client, _, ⟨hclient, rfl⟩, events, _, hevents, hblock⟩
    cases hblock
    exact ⟨⟨ledger, transactions, operations, effects, events⟩,
      ⟨⟨hledger, htransactions, hoperations, heffects⟩, ⟨client, hclient⟩, hevents⟩, rfl⟩
  · rintro ⟨records, ⟨⟨hledger, htransactions, hoperations, heffects⟩, ⟨client, hclient⟩, hevents⟩, rfl⟩
    exact ⟨_, _, ⟨hledger, rfl⟩, _, _, ⟨htransactions, rfl⟩, _, _, ⟨hoperations, rfl⟩, _, _, ⟨heffects, rfl⟩, client, _,
      ⟨hclient, rfl⟩, _, _, hevents, rfl⟩

end Fetch

end SubqlStellar
