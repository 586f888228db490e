import SubqlStellar.BatchOrder
import SubqlStellar.EventDelivery
/-!
# BatchDelivery — the events of a batch's ledgers, at the Event handlers

The blocks of a batch are indexed one after the other.  An event reaches the Event handlers of a datasource through the
block of its own ledger and through no other (`count_eventCalls`).  So where pages are whole a batch of distinct heights
hands each of its ledgers' events that names a listed operation to them exactly once, if the ledger invokes a host
function, and else not at all (`batch_events_once`): neither the shared cache nor another batch loses or doubles one.
-/
namespace SubqlStellar

open Runs (run AllSteps)

section Delivery

variable {Filter Ds : Type} {lists : HorizonLists} {rpc : RpcFilters Filter}

theorem Holds.mem_of_mem_eventCalls {records : LedgerRecords} {block : StellarBlock} (h : Holds records block)
    {dataSources : List Ds} {n : Nat} (hn : n < dataSources.length) {event : SorobanEvent}
    (hevent : event ∈ eventCalls block dataSources n) : event.record ∈ records.events := by
  rw [h.eventCalls_eq hn] at hevent
  obtain ⟨op, hop, hevent⟩ := List.mem_flatMap.1 hevent
  obtain ⟨tx, htx, hop⟩ := h.exists_tx hop
  rw [← h.events]
  exact List.mem_map_of_mem (h.sharedEvents tx htx op hop event hevent)

theorem of_mem_heldRecords {log : EventLog} {ledger : LedgerRecord} {sequence : Nat}
    {event : SorobanRpcEventResponse} (h : event ∈ (heldRecords lists log ledger sequence).events) :
    hasInvokeHostFunctionOp (lists.operations sequence) = true ∧ event.ledger = sequence := by
  unfold heldRecords at h
  simp only at h
  split at h
  · rename_i hgate
    exact ⟨hgate, ((Keyed.mem_block _).1 h).2⟩
  · cases h

/-- **How often the Event handlers are given an event of a block**: once by its own ledger's, if that invokes a host
function, and not at all by another ledger's. -/
theorem count_eventCalls {log : EventLog} {ledger : LedgerRecord} {sequence : Nat} {dataSources : List Ds} {n : Nat}
    (hn : n < dataSources.length) {event : SorobanRpcEventResponse} (hevent : event ∈ log.events)
    (hhashes : ((lists.transactions event.ledger).map TransactionRecord.hash).Nodup)
    (hnames : NamesOperation (heldRecords lists log ledger event.ledger) event)
    (hledger : lists.ledger event.ledger = .ok ledger) {block : StellarBlock}
    (hblock : ledgerResult lists log sequence = .ok block) :
    ((eventCalls block dataSources n).map SorobanEvent.record).count event =
      if hasInvokeHostFunctionOp (lists.operations event.ledger) = true ∧ sequence = event.ledger then 1 else 0 := by
  obtain ⟨ledger', hledger', -, rfl⟩ := ledgerResult_eq_ok hblock
  have hholds := holds_block (heldRecords lists log ledger' sequence)
  by_cases hfetched : hasInvokeHostFunctionOp (lists.operations event.ledger) = true ∧ sequence = event.ledger
  · obtain ⟨hgate, rfl⟩ := hfetched
    cases hledger.symm.trans hledger'
    have hevents : (heldRecords lists log ledger event.ledger).events = ledgerEvents event.ledger log.events :=
      if_pos hgate
    have hnodup : (heldRecords lists log ledger event.ledger).events.Nodup := by
      rw [hevents]
      exact (List.Nodup.of_map _ log.distinctIds).filter _
    have hmem : event ∈ (heldRecords lists log ledger event.ledger).events := by
      rw [hevents]
      exact (Keyed.mem_block _).2 ⟨hevent, rfl⟩
    rw [if_pos ⟨hgate, rfl⟩]
    exact (hholds.eventsDelivered hnodup hn).once hhashes event hmem hnames
  · rw [if_neg hfetched, List.count_eq_zero]
    intro hmem
    obtain ⟨wrapped, hwrapped, rfl⟩ := List.mem_map.1 hmem
    obtain ⟨hgate, hsame⟩ := of_mem_heldRecords (hholds.mem_of_mem_eventCalls hn hwrapped)
    exact hfetched ⟨hsame.symm ▸ hgate, hsame.symm⟩

theorem count_eventCalls_blocks {log : EventLog} {ledger : LedgerRecord} {dataSources : List Ds} {n : Nat}
    (hn : n < dataSources.length) {event : SorobanRpcEventResponse} (hevent : event ∈ log.events)
    (hhashes : ((lists.transactions event.ledger).map TransactionRecord.hash).Nodup)
    (hnames : NamesOperation (heldRecords lists log ledger event.ledger) event)
    (hledger : lists.ledger event.ledger = .ok ledger) : ∀ {heights : List Nat} {blocks : List StellarBlock},
    heights.map (ledgerResult lists log) = blocks.map Except.ok →
    ((blocks.flatMap (fun block => eventCalls block dataSources n)).map SorobanEvent.record).count event =
      if hasInvokeHostFunctionOp (lists.operations event.ledger) then heights.count event.ledger else 0
  | [], [], _ => (ite_self 0).symm
  | [], _ :: _, h => by cases h
  | _ :: _, [], h => by cases h
  | sequence :: heights, block :: blocks, h => by
    obtain ⟨hblock, hblocks⟩ := List.cons.inj h
    rw [List.flatMap_cons, List.map_append, List.count_append,
      count_eventCalls hn hevent hhashes hnames hledger hblock,
      count_eventCalls_blocks hn hevent hhashes hnames hledger hblocks, List.count_cons]
    by_cases hgate : hasInvokeHostFunctionOp (lists.operations event.ledger) = true
    · simp [hgate, Nat.add_comm]
    · simp [hgate]

/-- **The Event handlers of a datasource are given each event of a batch's ledgers that names a listed operation as
often as the batch has its ledger, if that invokes a host function: once, for distinct heights.**  Behind the gate they
are given none. -/
theorem batch_events_once {log : EventLog} {s : BatchSystem Filter} {labels : List (BatchLabel Filter)}
    (h : run (batchStep lists rpc) (BatchSystem.init Filter log) labels = some s)
    (hpages : AllSteps (batchStep lists rpc) BatchWholePages (BatchSystem.init Filter log) labels) {batch : Batch}
    (hbatch : batch ∈ s.batches) {blocks : List StellarBlock} (hblocks : batch.outcome = some (.ok blocks))
    {dataSources : List Ds} {n : Nat} (hn : n < dataSources.length) {event : SorobanRpcEventResponse}
    (hevent : event ∈ s.events.log.events) {ledger : LedgerRecord} (hledger : lists.ledger event.ledger = .ok ledger)
    (hhashes : ((lists.transactions event.ledger).map TransactionRecord.hash).Nodup)
    (hnames : NamesOperation (heldRecords lists s.events.log ledger event.ledger) event) :
    ((blocks.flatMap (fun block => eventCalls block dataSources n)).map SorobanEvent.record).count event =
        (if hasInvokeHostFunctionOp (lists.operations event.ledger) then batch.bufferBlocks.count event.ledger else 0) ∧
      (batch.bufferBlocks.Nodup → event.ledger ∈ batch.bufferBlocks →
        ((blocks.flatMap (fun block => eventCalls block dataSources n)).map SorobanEvent.record).count event =
          if hasInvokeHostFunctionOp (lists.operations event.ledger) then 1 else 0) := by
  have hresults := ((batchesOk_of_run h).batches batch hbatch).results (consistent_of_batchRun h hpages) hblocks
  have hcount : ((blocks.flatMap (fun block => eventCalls block dataSources n)).map SorobanEvent.record).count event =
      if hasInvokeHostFunctionOp (lists.operations event.ledger) then batch.bufferBlocks.count event.ledger else 0 :=
    count_eventCalls_blocks hn hevent hhashes hnames hledger hresults
  refine ⟨hcount, fun hdistinct hmem => ?_⟩
  rw [hcount, List.count_eq_one_of_mem hdistinct hmem]

end Delivery

theorem batch_events_once_invoking : ∃ batch ∈ (batchRun invokingLists completingLabels).batches, ∃ blocks,
    batch.outcome = some (.ok blocks) ∧ ∀ event ∈ invokingLog.events,
      ((blocks.flatMap (fun block => eventCalls block [()] 0)).map SorobanEvent.record).count event = 1 := by
  obtain ⟨batch, hbatch, hblocks, hheights⟩ : ∃ batch ∈ (batchRun invokingLists completingLabels).batches,
      batch.outcome = some (.ok [invokingRecords.block]) ∧ batch.bufferBlocks = [7] :=
    ⟨_, List.mem_of_getElem? (i := 0) rfl, rfl, rfl⟩
  refine ⟨batch, hbatch, _, hblocks, fun event hevent => ?_⟩
  have hseven : event.ledger = 7 := by
    rw [List.mem_singleton.1 hevent]
  have hnames : NamesOperation (heldRecords invokingLists invokingLog ⟨event.ledger, "2024-01-01T00:00:00Z"⟩
      event.ledger) event := by
    rw [List.mem_singleton.1 hevent]
    decide
  have hgate : hasInvokeHostFunctionOp (invokingLists.operations event.ledger) = true := rfl
  have hhashes : ((invokingLists.transactions event.ledger).map TransactionRecord.hash).Nodup := List.nodup_singleton _
  have honce := (batch_events_once batchRun_completing batchPages_completing hbatch hblocks
    (show 0 < [()].length from Nat.zero_lt_one) hevent rfl hhashes hnames).2
  rw [hheights, hseven] at honce
  exact honce (List.nodup_singleton 7) (List.mem_singleton_self 7)

end SubqlStellar
