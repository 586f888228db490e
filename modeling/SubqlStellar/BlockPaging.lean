import Mathlib.Data.PNat.Defs
import SubqlStellar.BlockFetch
import SubqlStellar.EventsFetch
/-!
# BlockPaging — the block does not depend on how its records are paged

Servers that hold a ledger's lists and answer with nonempty runs of their next records, of any length (`PageCuts`),
then with an empty page.  Each page loop collects its whole list (`fetchPages_pageOf`), and the fetch of a ledger's
events collects all of them, so whatever the page limit and the cuts, `fetchAndWrapLedger` ends the same way
(`fetchAndWrapLedger_paged`).
-/
namespace SubqlStellar

structure HorizonLists where
  ledger : Nat → Except JsError LedgerRecord
  transactions : Nat → List TransactionRecord
  operations : Nat → List OperationRecord
  effects : Nat → List EffectRecord

/-- How long each page is, by the place it starts at. -/
structure PageCuts (Filter : Type) where
  transactions : Nat → ℕ+
  operations : Nat → ℕ+
  effects : Nat → ℕ+
  events : GetEventsRequest Filter → ℕ+

def pageOf {α : Type} (records : List α) (cut : Nat → ℕ+) (cursor : Option Nat) : HorizonPage α :=
  let place := cursor.getD 0
  let page := (records.drop place).take (cut place)
  ⟨page, place + page.length⟩

def HorizonLists.serve {Filter : Type} (lists : HorizonLists) (cuts : PageCuts Filter) : HorizonServer where
  ledger := lists.ledger
  transactions sequence _ cursor := .ok (pageOf (lists.transactions sequence) cuts.transactions cursor)
  operations sequence _ cursor := .ok (pageOf (lists.operations sequence) cuts.operations cursor)
  effects sequence _ cursor := .ok (pageOf (lists.effects sequence) cuts.effects cursor)

def pagedApi {Filter : Type} (lists : HorizonLists) (log : EventLog) (rpc : RpcFilters Filter) (cuts : PageCuts Filter)
    (pageLimit : ℕ+) : StellarApi Filter where
  stellarClient := lists.serve cuts
  _sorobanClient := some ⟨serve log rpc (fun request => cuts.events request), .ok log.newestLedger⟩
  pageLimit := configuredPageLimit (some pageLimit)

def eventsResult (log : EventLog) (sequence : Nat) (operations : List OperationRecord) :
    Except JsError (List SorobanRpcEventResponse) :=
  if hasInvokeHostFunctionOp operations then
    if sequence ≤ log.newestLedger then .ok (ledgerEvents sequence log.events)
    else .error (startsAfterNewest sequence log.newestLedger)
  else .ok []

def ledgerResult (lists : HorizonLists) (log : EventLog) (sequence : Nat) : Except JsError StellarBlock :=
  match lists.ledger sequence with
  | .error e => .error e
  | .ok ledger =>
    match eventsResult log sequence (lists.operations sequence) with
    | .error e => .error e
    | .ok events =>
      .ok (assembleBlock ledger (lists.transactions sequence) (lists.operations sequence) (lists.effects sequence)
        events)

/-- **A page loop collects the whole list**, however it is cut. -/
theorem fetchPages_pageOf {α : Type} (records : List α) (cut : Nat → ℕ+) : ∀ (fuel place : Nat) (acc : List α),
    place ≤ records.length → records.length < place + fuel →
    fetchPages (fun cursor => .ok (pageOf records cut cursor)) fuel (pageOf records cut (some place)) acc =
      some (.ok (acc ++ records.drop place))
  | 0, place, acc, hle, hfuel => by omega
  | fuel + 1, place, acc, hle, hfuel => by
    have hlen : (pageOf records cut (some place)).records.length = min (cut place : Nat) (records.length - place) := by
      simp [pageOf]
    have hpos : 0 < (cut place : Nat) := (cut place).2
    unfold fetchPages
    by_cases hempty : (pageOf records cut (some place)).records.length ≠ 0
    · have hnext : (pageOf records cut (some place)).next =
          place + (pageOf records cut (some place)).records.length := rfl
      have hrest : (pageOf records cut (some place)).records ++
          records.drop (place + (pageOf records cut (some place)).records.length) = records.drop place := by
        have hcut : (records.drop place).drop (pageOf records cut (some place)).records.length =
            (records.drop place).drop (cut place) := by
          rw [List.drop_eq_drop_iff, hlen, List.length_drop]
          omega
        rw [← List.drop_drop, hcut]
        exact List.take_append_drop _ _
      rw [if_pos hempty]
      simp only
      rw [hnext, fetchPages_pageOf records cut fuel _ _ (by omega) (by omega), List.append_assoc, hrest]
    · have hend : records.length ≤ place := by omega
      rw [if_neg hempty, List.drop_eq_nil_of_le hend, List.append_nil]

theorem collects_pageOf {α : Type} (records : List α) (cut : Nat → ℕ+) {fuel : Nat} (hfuel : records.length < fuel) :
    Collects fuel (fun cursor => .ok (pageOf records cut cursor)) records := by
  refine ⟨pageOf records cut none, rfl, ?_⟩
  have h := fetchPages_pageOf records cut fuel 0 [] (Nat.zero_le _) (by omega)
  rwa [List.drop_zero, List.nil_append] at h

section Paged

variable {Filter : Type} {lists : HorizonLists} {log : EventLog} {rpc : RpcFilters Filter} {cuts : PageCuts Filter}
  {pageLimit : ℕ+} {sequence fuel : Nat}

def pagesOf (lists : HorizonLists) (log : EventLog) (sequence : Nat) : Nat :=
  (lists.transactions sequence).length + (lists.operations sequence).length + (lists.effects sequence).length +
    log.events.length

/-- **The events call of a ledger**, from a cache that holds of the ledger nothing or all of its events. -/
theorem getAndWrapEvents_paged {eventsCache : EventsCache} (hfuel : log.events.length < fuel)
    (hL : sequence ≤ log.newestLedger) (hcache : ∀ entry, AList.lookup sequence eventsCache = some entry →
      entry.events = ledgerEvents sequence log.events) :
    ∃ eventsCache', getAndWrapEvents (pagedApi lists log rpc cuts pageLimit) fuel sequence eventsCache =
      some (.ok (ledgerEvents sequence log.events), eventsCache') := by
  rw [getAndWrapEvents_apply rfl]
  cases hentry : AList.lookup sequence eventsCache with
  | some entry =>
    rw [getEvents_hit hentry fuel rfl]
    refine ⟨AList.erase sequence eventsCache, ?_⟩
    rw [← hcache entry hentry]
    rfl
  | none =>
    have hpos : ∀ request : GetEventsRequest Filter,
        request.limit = some (configuredPageLimit (some pageLimit)) → 0 < (cuts.events request : Nat) :=
      fun request _ => (cuts.events request).2
    have hn : (ledgerEvents sequence (log.view rpc [])).length < fuel := by
      rw [view_nil]
      exact Nat.lt_of_le_of_lt (List.length_filter_le _ _) hfuel
    obtain ⟨eventsToCache, -, hget, -, -⟩ := getEvents_miss hpos hL hentry hn
    rw [view_nil] at hget
    exact ⟨updateEventCache eventsCache eventsToCache (some sequence), congrArg (Option.map _) hget⟩

theorem lookup_empty_held (sequence : Nat) (entry : CachedEventsResponse)
    (h : AList.lookup sequence (∅ : EventsCache) = some entry) : entry.events = ledgerEvents sequence log.events := by
  rw [AList.lookup_empty] at h
  cases h

theorem getAndWrapEvents_rejected (hfuel : 0 < fuel) (hL : log.newestLedger < sequence) :
    getAndWrapEvents (pagedApi lists log rpc cuts pageLimit) fuel sequence ∅ =
      some (.error ⟨"start is after newest ledger"⟩, ∅) := by
  obtain ⟨fuel, rfl⟩ : ∃ n, fuel = n + 1 := Nat.exists_eq_succ_of_ne_zero (by omega)
  have hnone : AList.lookup sequence (∅ : EventsCache) = none := AList.lookup_empty sequence
  rw [getAndWrapEvents_apply rfl]
  exact congrArg (Option.map _) (getEvents_rejected hL hnone [] (some (configuredPageLimit (some pageLimit))))

theorem eventsForSequence_paged (hfuel : log.events.length < fuel) (operations : List OperationRecord) :
    ∃ eventsCache, eventsForSequence (pagedApi lists log rpc cuts pageLimit) fuel sequence operations ∅ =
      some (eventsResult log sequence operations, eventsCache) := by
  unfold eventsForSequence eventsResult
  by_cases hgate : hasInvokeHostFunctionOp operations = true
  · rw [if_pos hgate, if_pos hgate, ApiM.tryCatch_apply]
    by_cases hL : sequence ≤ log.newestLedger
    · obtain ⟨eventsCache, hevents⟩ : ∃ eventsCache, getAndWrapEvents (pagedApi lists log rpc cuts pageLimit) fuel
          sequence ∅ = some (.ok (ledgerEvents sequence log.events), eventsCache) :=
        getAndWrapEvents_paged hfuel hL (lookup_empty_held sequence)
      exact ⟨eventsCache, by rw [hevents, if_pos hL]⟩
    · rw [getAndWrapEvents_rejected (by omega) (by omega), if_neg hL]
      exact ⟨∅, rfl⟩
  · rw [if_neg hgate, if_neg hgate]
    exact ⟨∅, rfl⟩

/-- **How `fetchAndWrapLedger` ends**, from an empty cache. -/
theorem fetchAndWrapLedger_paged (hfuel : pagesOf lists log sequence < fuel) :
    (fetchAndWrapLedger (pagedApi lists log rpc cuts pageLimit) fuel sequence ∅).map Prod.fst =
      some (ledgerResult lists log sequence) := by
  unfold pagesOf at hfuel
  have htransactions : fetchTransactionsForLedger (pagedApi lists log rpc cuts pageLimit) fuel sequence ∅ =
      some (.ok (lists.transactions sequence), ∅) :=
    fetchCollection_eq_ok.2 ⟨collects_pageOf (lists.transactions sequence) cuts.transactions (by omega), rfl⟩
  have hoperations : fetchOperationsForLedger (pagedApi lists log rpc cuts pageLimit) fuel sequence ∅ =
      some (.ok (lists.operations sequence), ∅) :=
    fetchCollection_eq_ok.2 ⟨collects_pageOf (lists.operations sequence) cuts.operations (by omega), rfl⟩
  have heffects : fetchEffectsForLedger (pagedApi lists log rpc cuts pageLimit) fuel sequence ∅ =
      some (.ok (lists.effects sequence), ∅) :=
    fetchCollection_eq_ok.2 ⟨collects_pageOf (lists.effects sequence) cuts.effects (by omega), rfl⟩
  unfold fetchAndWrapLedger ledgerResult
  cases hledger : lists.ledger sequence with
  | error e =>
    have hfetch : fetchLedger (pagedApi lists log rpc cuts pageLimit) sequence ∅ = some (.error e, ∅) :=
      congrArg (fun result => some (result, ∅)) hledger
    rw [ApiM.bind_of_error hfetch]
    rfl
  | ok ledger =>
    have hfetch : fetchLedger (pagedApi lists log rpc cuts pageLimit) sequence ∅ = some (.ok ledger, ∅) :=
      congrArg (fun result => some (result, ∅)) hledger
    rw [ApiM.bind_of_ok hfetch, ApiM.bind_of_ok htransactions, ApiM.bind_of_ok hoperations, ApiM.bind_of_ok heffects,
      ApiM.bind_of_ok (sorobanClient_eq_ok.2 ⟨rfl, rfl⟩)]
    obtain ⟨eventsCache, hevents⟩ : ∃ eventsCache,
        eventsForSequence (pagedApi lists log rpc cuts pageLimit) fuel sequence (lists.operations sequence) ∅ =
          some (eventsResult log sequence (lists.operations sequence), eventsCache) :=
      eventsForSequence_paged (by omega) _
    cases hresult : eventsResult log sequence (lists.operations sequence) with
    | error e =>
      rw [hresult] at hevents
      rw [ApiM.bind_of_error hevents]
      rfl
    | ok events =>
      rw [hresult] at hevents
      rw [ApiM.bind_of_ok hevents]
      rfl

/-- What is fetched where the Soroban server holds the ledger. -/
def heldRecords (lists : HorizonLists) (log : EventLog) (ledger : LedgerRecord) (sequence : Nat) : LedgerRecords where
  ledger := ledger
  transactions := lists.transactions sequence
  operations := lists.operations sequence
  effects := lists.effects sequence
  events := if hasInvokeHostFunctionOp (lists.operations sequence) then ledgerEvents sequence log.events else []

theorem fetches_held {ledger : LedgerRecord} {eventsCache : EventsCache} (hledger : lists.ledger sequence = .ok ledger)
    (hfuel : pagesOf lists log sequence < fuel)
    (hheld : hasInvokeHostFunctionOp (lists.operations sequence) = true → sequence ≤ log.newestLedger)
    (hcache : ∀ entry, AList.lookup sequence eventsCache = some entry →
      entry.events = ledgerEvents sequence log.events) :
    ∃ eventsCache', Fetches (pagedApi lists log rpc cuts pageLimit) fuel sequence eventsCache
      (heldRecords lists log ledger sequence) eventsCache' := by
  unfold pagesOf at hfuel
  have htransactions := collects_pageOf (lists.transactions sequence) cuts.transactions
    (show (lists.transactions sequence).length < fuel by omega)
  have hoperations := collects_pageOf (lists.operations sequence) cuts.operations
    (show (lists.operations sequence).length < fuel by omega)
  have heffects := collects_pageOf (lists.effects sequence) cuts.effects
    (show (lists.effects sequence).length < fuel by omega)
  by_cases hgate : hasInvokeHostFunctionOp (lists.operations sequence) = true
  · obtain ⟨eventsCache', hevents⟩ : ∃ eventsCache', getAndWrapEvents (pagedApi lists log rpc cuts pageLimit) fuel
        sequence eventsCache = some (.ok (ledgerEvents sequence log.events), eventsCache') :=
      getAndWrapEvents_paged (by omega) (hheld hgate) hcache
    refine ⟨eventsCache', ⟨hledger, htransactions, hoperations, heffects⟩, ⟨_, rfl⟩, ?_⟩
    simp only [heldRecords, hgate, if_true]
    exact hevents
  · refine ⟨eventsCache, ⟨hledger, htransactions, hoperations, heffects⟩, ⟨_, rfl⟩, ?_⟩
    simp [heldRecords, hgate]

theorem fetches_paged {ledger : LedgerRecord} (hledger : lists.ledger sequence = .ok ledger)
    (hfuel : pagesOf lists log sequence < fuel) (hheld : sequence ≤ log.newestLedger) :
    ∃ eventsCache, Fetches (pagedApi lists log rpc cuts pageLimit) fuel sequence ∅
      (heldRecords lists log ledger sequence) eventsCache :=
  fetches_held hledger hfuel (fun _ => hheld) (lookup_empty_held sequence)

/-- **Whatever the page limits and however the servers cut their lists into pages, `fetchAndWrapLedger` ends, and with
the same block.** -/
theorem block_paging_independent (lists : HorizonLists) (log : EventLog) (rpc : RpcFilters Filter)
    (cuts cuts' : PageCuts Filter) (pageLimit pageLimit' : ℕ+) (sequence : Nat) :
    ∃ result, (∀ fuel, pagesOf lists log sequence < fuel →
        (fetchAndWrapLedger (pagedApi lists log rpc cuts pageLimit) fuel sequence ∅).map Prod.fst = some result ∧
        (fetchAndWrapLedger (pagedApi lists log rpc cuts' pageLimit') fuel sequence ∅).map Prod.fst = some result) ∧
      ∀ ledger, lists.ledger sequence = .ok ledger →
        (hasInvokeHostFunctionOp (lists.operations sequence) = true → sequence ≤ log.newestLedger) →
        ∃ block, result = .ok block := by
  refine ⟨ledgerResult lists log sequence,
    fun fuel hfuel => ⟨fetchAndWrapLedger_paged hfuel, fetchAndWrapLedger_paged hfuel⟩, fun ledger hledger hheld => ?_⟩
  unfold ledgerResult eventsResult
  rw [hledger]
  by_cases hgate : hasInvokeHostFunctionOp (lists.operations sequence) = true
  · simp [hgate, hheld hgate]
  · simp [hgate]

end Paged

/-! ## A ledger with one call of a contract -/

def invokingHash : TxHash := ⟨"b1", by decide⟩

def invokingOperation : OperationId := ⟨"30064775169", by decide⟩

/-- Ledger 7: one transaction, its one operation invokes a host function, with one effect. -/
def invokingLists : HorizonLists where
  ledger sequence := .ok ⟨sequence, "2024-01-01T00:00:00Z"⟩
  transactions _ := [⟨invokingHash, "G1"⟩]
  operations _ := [⟨invokingOperation, invokingHash, "invoke_host_function", "G1"⟩]
  effects _ := [⟨⟨"0030064775169-0000000001", by decide⟩, "account_credited", "G1"⟩]

/-- Horizon when ledger 7 is its newest. -/
def finalizedLists : HorizonLists :=
  { invokingLists with
    ledger := fun sequence => if sequence ≤ 7 then invokingLists.ledger sequence else .error ⟨"Not Found"⟩ }

def invokingLog : EventLog where
  events := [⟨"0030064775168-0000000001", 7, invokingHash, 0, none, []⟩]
  newestLedger := 7
  sorted := by decide
  closed := by decide
  distinctIds := by decide

def invokingRecords : LedgerRecords where
  ledger := ⟨7, "2024-01-01T00:00:00Z"⟩
  transactions := invokingLists.transactions 7
  operations := invokingLists.operations 7
  effects := invokingLists.effects 7
  events := invokingLog.events

def evenCuts (n : ℕ+) : PageCuts Unit := ⟨fun _ => n, fun _ => n, fun _ => n, fun _ => n⟩

theorem block_paging_independent_invoking : ∃ block, ∀ fuel, 4 < fuel →
    (fetchAndWrapLedger (pagedApi invokingLists invokingLog unfiltered (evenCuts 1) 200) fuel 7 ∅).map Prod.fst =
        some (.ok block) ∧
      (fetchAndWrapLedger (pagedApi invokingLists invokingLog unfiltered (evenCuts 3) 10) fuel 7 ∅).map Prod.fst =
        some (.ok block) := by
  obtain ⟨result, hresult, hok⟩ :=
    block_paging_independent invokingLists invokingLog unfiltered (evenCuts 1) (evenCuts 3) 200 10 7
  obtain ⟨block, rfl⟩ := hok _ rfl (fun _ => by decide)
  exact ⟨block, hresult⟩

end SubqlStellar
