import Mathlib.Data.List.Perm.Subperm
import SubqlStellar.BlockJoin
import SubqlStellar.IndexerDelivery
/-!
# EventDelivery — which events reach the Event handlers

A ledger's events are fetched only where one of its operations invokes a host function, and a fetched event reaches the
Event handlers only through the operation it names.  Behind the gate, the handlers are given every event that names a
listed operation (`event_delivery`); in front of it, none.
-/
namespace SubqlStellar

def eventCalls {Ds : Type} (block : StellarBlock) (dataSources : List Ds) (n : Nat) : List SorobanEvent :=
  (callsFor block dataSources n).filterMap HandlerInput.event?

/-- The Event handlers are given the events that name a listed operation: each once, where no two transactions have the
same hash. -/
structure EventsDelivered (records : LedgerRecords) (block : StellarBlock) (calls : List SorobanEvent) : Prop where
  count : ∀ event ∈ records.events, NamesOperation records event → (calls.map SorobanEvent.record).count event =
    (records.transactions.map TransactionRecord.hash).count event.txHash
  once : (records.transactions.map TransactionRecord.hash).Nodup → ∀ event ∈ records.events,
    NamesOperation records event → (calls.map SorobanEvent.record).count event = 1
  same : (records.transactions.map TransactionRecord.hash).Nodup →
    (∀ event ∈ records.events, NamesOperation records event) → calls.Perm block.events

section Delivery

variable {records : LedgerRecords} {block : StellarBlock} {Ds : Type} {dataSources : List Ds} {n : Nat}

theorem Holds.eventCalls_eq (h : Holds records block) (hn : n < dataSources.length) :
    eventCalls block dataSources n = block.operations.flatMap StellarOperation.events :=
  (h.delivered hn).events

theorem Holds.noEvents (h : Holds records block) (hnone : records.events = []) (dataSources : List Ds) :
    block.events = [] ∧ ∀ n < dataSources.length, eventCalls block dataSources n = [] := by
  have hevents : block.events = [] := by
    have hmap := h.events
    rw [hnone] at hmap
    exact List.map_eq_nil_iff.1 hmap
  refine ⟨hevents, fun n hn => ?_⟩
  rw [h.eventCalls_eq hn, List.flatMap_eq_nil_iff]
  intro op hop
  rw [List.eq_nil_iff_forall_not_mem]
  intro event hevent
  obtain ⟨tx, htx, hop⟩ := h.exists_tx hop
  have hshared := h.sharedEvents tx htx op hop event hevent
  rw [hevents] at hshared
  cases hshared

theorem perm_of_map_perm {α β : Type} {f : α → β} {l l' : List α} (hnd : (l'.map f).Nodup)
    (hperm : (l.map f).Perm (l'.map f)) (hsub : ∀ x ∈ l, x ∈ l') : l.Perm l' := by
  have hnodup : l.Nodup := List.Nodup.of_map f (hperm.nodup_iff.2 hnd)
  have hlength : l'.length ≤ l.length := by
    have hsame := hperm.length_eq
    rw [List.length_map, List.length_map] at hsame
    exact Nat.le_of_eq hsame.symm
  exact (hnodup.subperm hsub).perm_of_length_le hlength

/-- **The Event handlers are given the events that name a listed operation**, where no two fetched events are the
same. -/
theorem Holds.eventsDelivered (h : Holds records block) (hids : records.events.Nodup) (hn : n < dataSources.length) :
    EventsDelivered records block (eventCalls block dataSources n) := by
  have hcount : ∀ event ∈ records.events, NamesOperation records event →
      ((eventCalls block dataSources n).map SorobanEvent.record).count event =
        (records.transactions.map TransactionRecord.hash).count event.txHash := by
    intro event hevent hnames
    rw [h.eventCalls_eq hn, h.count_events (namesOperation_iff_hasPlace.1 hnames).2,
      List.count_eq_one_of_mem hids hevent, Nat.mul_one]
  refine ⟨hcount, fun hhashes event hevent hnames => ?_, fun hhashes hnames => ?_⟩
  · rw [hcount event hevent hnames]
    exact List.count_eq_one_of_mem hhashes (namesOperation_iff_hasPlace.1 hnames).1
  · have hall : records.events.filter (fun event => decide (NamesOperation records event)) = records.events :=
      List.filter_eq_self.2 (fun event hevent => decide_eq_true (hnames event hevent))
    have hperm := h.events_perm hhashes
    rw [hall, ← h.events] at hperm
    rw [h.eventCalls_eq hn]
    refine perm_of_map_perm ?_ hperm (fun event hevent => ?_)
    · rw [h.events]
      exact hids
    · obtain ⟨op, hop, hevent⟩ := List.mem_flatMap.1 hevent
      obtain ⟨tx, htx, hop⟩ := h.exists_tx hop
      exact h.sharedEvents tx htx op hop event hevent

end Delivery

/-- **Behind the gate, every event of the ledger that names a listed operation reaches the Event handlers of every
datasource; in front of it, no event is fetched.** -/
theorem event_delivery {Filter : Type} (lists : HorizonLists) (log : EventLog) (rpc : RpcFilters Filter)
    (cuts : PageCuts Filter) (pageLimit : ℕ+) {fuel sequence : Nat} {ledger : LedgerRecord} {eventsCache : EventsCache}
    (hledger : lists.ledger sequence = .ok ledger) (hfuel : pagesOf lists log sequence < fuel)
    (hheld : hasInvokeHostFunctionOp (lists.operations sequence) = true → sequence ≤ log.newestLedger)
    (hcache : ∀ entry, AList.lookup sequence eventsCache = some entry →
      entry.events = ledgerEvents sequence log.events) {Ds : Type} (dataSources : List Ds) :
    ∃ block eventsCache', fetchAndWrapLedger (pagedApi lists log rpc cuts pageLimit) fuel sequence eventsCache =
        some (.ok block, eventsCache') ∧
      if hasInvokeHostFunctionOp (lists.operations sequence) then
        block.events.map SorobanEvent.record = ledgerEvents sequence log.events ∧
          ∀ n < dataSources.length,
            EventsDelivered (heldRecords lists log ledger sequence) block (eventCalls block dataSources n)
      else block.events = [] ∧ ∀ n < dataSources.length, eventCalls block dataSources n = [] := by
  obtain ⟨eventsCache', hfetches⟩ : ∃ eventsCache', Fetches (pagedApi lists log rpc cuts pageLimit) fuel sequence
      eventsCache (heldRecords lists log ledger sequence) eventsCache' := fetches_held hledger hfuel hheld hcache
  have hholds := holds_block (heldRecords lists log ledger sequence)
  refine ⟨_, eventsCache', fetchAndWrapLedger_eq_ok.2 ⟨_, hfetches, rfl⟩, ?_⟩
  by_cases hgate : hasInvokeHostFunctionOp (lists.operations sequence) = true
  · have hevents : (heldRecords lists log ledger sequence).events = ledgerEvents sequence log.events := if_pos hgate
    rw [if_pos hgate]
    refine ⟨hholds.events.trans hevents, fun n hn => hholds.eventsDelivered ?_ hn⟩
    rw [hevents]
    exact (List.Nodup.of_map _ log.distinctIds).filter _
  · rw [if_neg hgate]
    exact hholds.noEvents (if_neg hgate) dataSources

theorem event_delivery_invoking : ∃ block eventsCache,
    fetchAndWrapLedger (pagedApi invokingLists invokingLog unfiltered (evenCuts 1) 10) 5 7 ∅ =
        some (.ok block, eventsCache) ∧ (eventCalls block [()] 0).Perm block.events := by
  have hledger : invokingLists.ledger 7 = .ok ⟨7, "2024-01-01T00:00:00Z"⟩ := rfl
  have hfuel : pagesOf invokingLists invokingLog 7 < 5 := by decide
  obtain ⟨block, eventsCache, hblock, hif⟩ := event_delivery invokingLists invokingLog unfiltered (evenCuts 1) 10
    hledger hfuel (fun _ => by decide) (lookup_empty_held 7) [()]
  have hdelivered := (if_pos (show hasInvokeHostFunctionOp (invokingLists.operations 7) = true by decide) ▸ hif).2 0
    (by decide)
  exact ⟨block, eventsCache, hblock, hdelivered.same (by decide) (by decide)⟩

/-- The same ledger with a payment in place of the call of the contract. -/
def paymentLists : HorizonLists :=
  { invokingLists with operations _ := [⟨invokingOperation, invokingHash, "payment", "G1"⟩] }

/-- **The one event of the ledger, of its one operation, reaches no Event handler.** -/
theorem payment_event_dropped : ∃ block eventsCache,
    fetchAndWrapLedger (pagedApi paymentLists invokingLog unfiltered (evenCuts 1) 10) 5 7 ∅ =
        some (.ok block, eventsCache) ∧
      (ledgerEvents 7 invokingLog.events).map SorobanRpcEventResponse.id = ["0030064775168-0000000001"] ∧
      block.events = [] ∧ eventCalls block [()] 0 = [] := by
  obtain ⟨eventsCache, hfetches⟩ : ∃ eventsCache,
      Fetches (pagedApi paymentLists invokingLog unfiltered (evenCuts 1) 10) 5 7 ∅
        (heldRecords paymentLists invokingLog ⟨7, "2024-01-01T00:00:00Z"⟩ 7) eventsCache :=
    fetches_paged rfl (by decide) (by decide)
  have hholds := holds_block (heldRecords paymentLists invokingLog ⟨7, "2024-01-01T00:00:00Z"⟩ 7)
  obtain ⟨hevents, hcalls⟩ := hholds.noEvents (by decide) [()]
  exact ⟨_, eventsCache, fetchAndWrapLedger_eq_ok.2 ⟨_, hfetches, rfl⟩, by decide, hevents, hcalls 0 (by decide)⟩

end SubqlStellar
