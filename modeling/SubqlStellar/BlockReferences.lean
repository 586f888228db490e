import SubqlStellar.BlockPaging
import SubqlStellar.BlockRecords
/-!
# BlockReferences — the parents that a fetched block's items name

Every transaction, operation and effect of a fetched block names its ledger, its transaction and its operation, through
whichever list it is reached.  An event names its ledger and its transaction, but no code sets its operation: all
references of a block are set exactly when none of its operations has an event (`backReferences_iff`).
-/
namespace SubqlStellar

structure OperationNames (block : StellarBlock) (tx : StellarTransaction) (op : StellarOperation) : Prop where
  ledger : op.ledger.map (fun ledger => ledger.record.sequence) = some block.record.sequence
  transaction : op.transaction.map (fun tx => tx.record.hash) = some tx.record.hash

structure EffectNames (block : StellarBlock) (tx : StellarTransaction) (op : StellarOperation)
    (effect : StellarEffect) : Prop where
  ledger : effect.ledger.map (fun ledger => ledger.record.sequence) = some block.record.sequence
  transaction : effect.transaction.map (fun tx => tx.record.hash) = some tx.record.hash
  operation : effect.operation.map (fun op => op.record.id) = some op.record.id

structure EventNames (block : StellarBlock) (tx : StellarTransaction) (op : StellarOperation) (event : SorobanEvent) :
    Prop where
  ledger : event.ledger.map (fun ledger => ledger.record.sequence) = some block.record.sequence
  transaction : event.transaction.map (fun tx => tx.record.hash) = some tx.record.hash
  operation : event.operation.map (fun op => op.record.id) = some op.record.id

/-- All parent references of a block are set, and name the actual parent, whichever list an item is reached through. -/
structure BackReferences (block : StellarBlock) : Prop where
  tx : ∀ tx ∈ block.transactions,
    tx.ledger.map (fun ledger => ledger.record.sequence) = some block.record.sequence
  op : ∀ tx ∈ block.transactions, ∀ op ∈ tx.operations, OperationNames block tx op
  effect : ∀ tx ∈ block.transactions, ∀ op ∈ tx.operations, ∀ effect ∈ op.effects, EffectNames block tx op effect
  event : ∀ tx ∈ block.transactions, ∀ op ∈ tx.operations, ∀ event ∈ op.events, EventNames block tx op event
  txEffects : ∀ tx ∈ block.transactions, ∀ effect ∈ tx.effects,
    ∃ op ∈ tx.operations, effect ∈ op.effects ∧ EffectNames block tx op effect
  txEvents : ∀ tx ∈ block.transactions, ∀ event ∈ tx.events,
    ∃ op ∈ tx.operations, event ∈ op.events ∧ EventNames block tx op event
  blockOperations : ∀ op ∈ block.operations,
    ∃ tx ∈ block.transactions, op ∈ tx.operations ∧ OperationNames block tx op
  blockEffects : ∀ effect ∈ block.effects,
    ∃ tx ∈ block.transactions, ∃ op ∈ tx.operations, effect ∈ op.effects ∧ EffectNames block tx op effect

/-- An event of one of the listed operations: its hash is a listed transaction's, and its index one of that
transaction's operations. -/
def NamesOperation (records : LedgerRecords) (event : SorobanRpcEventResponse) : Prop :=
  ∃ tx ∈ records.transactions, tx.hash = event.txHash ∧
    event.operationIndex < (Keyed.block OperationRecord.transactionHash tx.hash records.operations).length

section References

variable {records : LedgerRecords} {block : StellarBlock}

theorem mem_operationEvents {events : List SorobanRpcEventResponse} {hash : TxHash} {i : Nat}
    {event : SorobanRpcEventResponse} :
    event ∈ operationEvents events hash i ↔ event ∈ events ∧ event.txHash = hash ∧ event.operationIndex = i := by
  unfold operationEvents
  rw [Keyed.mem_block, Keyed.mem_block, and_assoc]

theorem Holds.length_operations (h : Holds records block) {tx : StellarTransaction} (htx : tx ∈ block.transactions) :
    tx.operations.length = (Keyed.block OperationRecord.transactionHash tx.record.hash records.operations).length := by
  rw [← h.txOperations tx htx, List.length_map]

theorem Holds.record_mem (h : Holds records block) {tx : StellarTransaction} (htx : tx ∈ block.transactions) :
    tx.record ∈ records.transactions := by
  rw [← h.transactions]
  exact List.mem_map_of_mem htx

theorem Holds.namesOperation_iff (h : Holds records block) (record : SorobanRpcEventResponse) :
    (record ∈ records.events ∧ NamesOperation records record) ↔
      ∃ tx ∈ block.transactions, ∃ op ∈ tx.operations, ∃ event ∈ op.events, event.record = record := by
  constructor
  · rintro ⟨hrecord, tx, htx, hhash, hindex⟩
    rw [← h.transactions] at htx
    obtain ⟨tx, htxs, rfl⟩ := List.mem_map.1 htx
    rw [← h.length_operations htxs] at hindex
    have hmem : record ∈ (tx.operations[record.operationIndex]).events.map SorobanEvent.record := by
      rw [h.opEvents tx htxs record.operationIndex _ (List.getElem?_eq_getElem hindex), mem_operationEvents]
      exact ⟨hrecord, hhash.symm, rfl⟩
    obtain ⟨event, hevent, rfl⟩ := List.mem_map.1 hmem
    exact ⟨tx, htxs, _, List.getElem_mem hindex, event, hevent, rfl⟩
  · rintro ⟨tx, htx, op, hop, event, hevent, rfl⟩
    obtain ⟨i, hi⟩ := List.getElem?_of_mem hop
    have hmem : event.record ∈ operationEvents records.events tx.record.hash i := by
      rw [← h.opEvents tx htx i op hi]
      exact List.mem_map_of_mem hevent
    obtain ⟨hfetched, hhash, hindex⟩ := mem_operationEvents.1 hmem
    refine ⟨hfetched, tx.record, h.record_mem htx, hhash.symm, ?_⟩
    rw [← h.length_operations htx, hindex]
    exact (List.getElem?_eq_some_iff.1 hi).1

theorem map_of_map {α β γ : Type} {o : Option α} {f : α → β} {b : β} (h : o.map f = some b) (g : β → γ) :
    o.map (fun a => g (f a)) = some (g b) := by
  obtain ⟨a, rfl, rfl⟩ := Option.map_eq_some_iff.1 h
  rfl

/-- **All references are set exactly where no operation has an event.** -/
theorem Names.backReferences_iff_noEvents (hh : Holds records block) (hn : Names records.ledger block) :
    BackReferences block ↔ ∀ tx ∈ block.transactions, ∀ op ∈ tx.operations, op.events = [] := by
  have hsequence : block.record.sequence = records.ledger.sequence := by rw [hh.ledger]
  have hop : ∀ tx ∈ block.transactions, ∀ op ∈ tx.operations, OperationNames block tx op := fun tx htx op hop => by
    obtain ⟨hledger, htransaction⟩ := hn.op tx htx op hop
    refine ⟨?_, map_of_map htransaction TransactionRecord.hash⟩
    rw [hsequence]
    exact map_of_map hledger LedgerRecord.sequence
  have heffect : ∀ tx ∈ block.transactions, ∀ op ∈ tx.operations, ∀ effect ∈ op.effects,
      EffectNames block tx op effect := fun tx htx op hop effect heffect => by
    obtain ⟨hledger, htransaction, hoperation⟩ := hn.effect tx htx op hop effect heffect
    refine ⟨?_, map_of_map htransaction TransactionRecord.hash, map_of_map hoperation OperationRecord.id⟩
    rw [hsequence]
    exact map_of_map hledger LedgerRecord.sequence
  constructor
  · intro h tx htx op hop
    rw [List.eq_nil_iff_forall_not_mem]
    intro event hevent
    have hnone := (hn.event tx htx op hop event hevent).2.2
    have hset := (h.event tx htx op hop event hevent).operation
    rw [hnone] at hset
    cases hset
  · intro hnone
    refine ⟨fun tx htx => ?_, hop, heffect, fun tx htx op hop event hevent => ?_, fun tx htx effect h => ?_,
      fun tx htx event h => ?_, fun op h => ?_, fun effect h => ?_⟩
    · rw [hsequence]
      exact map_of_map (hn.tx tx htx) LedgerRecord.sequence
    · rw [hnone tx htx op hop] at hevent
      cases hevent
    · rw [hh.txEffects tx htx] at h
      obtain ⟨op, hop, h⟩ := List.mem_flatMap.1 h
      exact ⟨op, hop, h, heffect tx htx op hop effect h⟩
    · rw [hh.txEvents tx htx] at h
      obtain ⟨op, hop, h⟩ := List.mem_flatMap.1 h
      rw [hnone tx htx op hop] at h
      cases h
    · rw [hh.operations] at h
      obtain ⟨tx, htx, h⟩ := List.mem_flatMap.1 h
      exact ⟨tx, htx, h, hop tx htx op h⟩
    · rw [hh.effects, hh.operations] at h
      obtain ⟨op, hop, h⟩ := List.mem_flatMap.1 h
      obtain ⟨tx, htx, hop⟩ := List.mem_flatMap.1 hop
      exact ⟨tx, htx, op, hop, h, heffect tx htx op hop effect h⟩

end References

/-- **The parent references of a fetched block are all set, and name the actual parents, if and only if no fetched event
names an operation of the ledger.** -/
theorem backReferences_iff {Filter : Type} {api : StellarApi Filter} {fuel sequence : Nat}
    {eventsCache eventsCache' : EventsCache} {records : LedgerRecords}
    (hfetches : Fetches api fuel sequence eventsCache records eventsCache') :
    ∃ block, fetchAndWrapLedger api fuel sequence eventsCache = some (.ok block, eventsCache') ∧
      (BackReferences block ↔ ∀ event ∈ records.events, ¬ NamesOperation records event) := by
  refine ⟨records.block, fetchAndWrapLedger_eq_ok.2 ⟨records, hfetches, rfl⟩, ?_⟩
  have hh := holds_block records
  rw [(names_block records).backReferences_iff_noEvents hh]
  constructor
  · intro h event hevent hnames
    obtain ⟨tx, htx, op, hop, event', hevent', -⟩ := (hh.namesOperation_iff event).1 ⟨hevent, hnames⟩
    rw [h tx htx op hop] at hevent'
    cases hevent'
  · intro h tx htx op hop
    rw [List.eq_nil_iff_forall_not_mem]
    intro event hevent
    obtain ⟨hfetched, hnames⟩ := (hh.namesOperation_iff event.record).2 ⟨tx, htx, op, hop, event, hevent, rfl⟩
    exact h event.record hfetched hnames

/-- The ledger of one call of a contract, had the call no event. -/
theorem backReferences_without_events : ∃ block eventsCache,
    fetchAndWrapLedger (pagedApi invokingLists (EventLog.silent 7) unfiltered (evenCuts 1) 10) 5 7 ∅ =
      some (.ok block, eventsCache) ∧ BackReferences block := by
  obtain ⟨eventsCache, hfetches⟩ : ∃ eventsCache,
      Fetches (pagedApi invokingLists (EventLog.silent 7) unfiltered (evenCuts 1) 10) 5 7 ∅ _ eventsCache :=
    fetches_paged rfl (by decide) (by decide)
  obtain ⟨block, hblock, hiff⟩ := backReferences_iff hfetches
  refine ⟨block, eventsCache, hblock, hiff.2 (fun event hevent => ?_)⟩
  cases hevent

/-- **The one event of a call of a contract does not name the operation it is under.** -/
theorem event_without_operation : ∃ block eventsCache,
    fetchAndWrapLedger (pagedApi invokingLists invokingLog unfiltered (evenCuts 1) 10) 5 7 ∅ =
        some (.ok block, eventsCache) ∧
      block.transactions.map (fun tx => tx.operations.map (fun op =>
        op.events.map (fun event => event.operation.isSome))) = [[[false]]] := by
  obtain ⟨eventsCache, hfetches⟩ : ∃ eventsCache,
      Fetches (pagedApi invokingLists invokingLog unfiltered (evenCuts 1) 10) 5 7 ∅ invokingRecords eventsCache :=
    fetches_paged rfl (by decide) (by decide)
  exact ⟨invokingRecords.block, eventsCache, fetchAndWrapLedger_eq_ok.2 ⟨_, hfetches, rfl⟩, by decide +kernel⟩

end SubqlStellar
