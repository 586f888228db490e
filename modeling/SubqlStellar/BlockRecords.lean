import SubqlStellar.BlockFetch
import SubqlStellar.BlockTree
/-!
# BlockRecords — which records a block holds where, and which parents they name

`Holds` says of a block which of the fetched records its lists hold, and `Names` which parents its items refer to.  Both
hold of every assembled block (`holds_block`, `names_block`), whatever the records are.
-/
namespace SubqlStellar

open Cells (Ref readAll updateAll)
open OperationParts TransactionParts

def operationEvents (events : List SorobanRpcEventResponse) (hash : TxHash) (i : Nat) : List SorobanRpcEventResponse :=
  Keyed.block SorobanRpcEventResponse.operationIndex i (Keyed.block SorobanRpcEventResponse.txHash hash events)

structure Holds (records : LedgerRecords) (block : StellarBlock) : Prop where
  ledger : block.record = records.ledger
  transactions : block.transactions.map StellarTransaction.record = records.transactions
  txOperations : ∀ tx ∈ block.transactions, tx.operations.map StellarOperation.record =
    Keyed.block OperationRecord.transactionHash tx.record.hash records.operations
  opEffects : ∀ tx ∈ block.transactions, ∀ op ∈ tx.operations, op.effects.map StellarEffect.record =
    Keyed.block effectKey op.record.id.text records.effects
  opEvents : ∀ tx ∈ block.transactions, ∀ i op, tx.operations[i]? = some op → op.events.map SorobanEvent.record =
    operationEvents records.events tx.record.hash i
  sharedEvents : ∀ tx ∈ block.transactions, ∀ op ∈ tx.operations, ∀ event ∈ op.events, event ∈ block.events
  txEffects : ∀ tx ∈ block.transactions, tx.effects = tx.operations.flatMap StellarOperation.effects
  txEvents : ∀ tx ∈ block.transactions, tx.events = tx.operations.flatMap StellarOperation.events
  operations : block.operations = block.transactions.flatMap StellarTransaction.operations
  effects : block.effects = block.operations.flatMap StellarOperation.effects
  events : block.events.map SorobanEvent.record = records.events

/-- The parents that the items of a block refer to. -/
structure Names (ledger : LedgerRecord) (block : StellarBlock) : Prop where
  tx : ∀ tx ∈ block.transactions, tx.ledger.map StellarBlock.record = some ledger
  op : ∀ tx ∈ block.transactions, ∀ op ∈ tx.operations, op.ledger.map StellarBlock.record = some ledger ∧
    op.transaction.map StellarTransaction.record = some tx.record
  effect : ∀ tx ∈ block.transactions, ∀ op ∈ tx.operations, ∀ effect ∈ op.effects,
    effect.ledger.map StellarBlock.record = some ledger ∧
      effect.transaction.map StellarTransaction.record = some tx.record ∧
      effect.operation.map StellarOperation.record = some op.record
  event : ∀ tx ∈ block.transactions, ∀ op ∈ tx.operations, ∀ event ∈ op.events,
    event.ledger.map StellarBlock.record = some ledger ∧
      event.transaction.map (fun tx => tx.record.hash) = some tx.record.hash ∧ event.operation = none

section Parts

variable {operations : List OperationRecord} {effects : List EffectRecord} {refs : List Ref}

/-- A transaction's parts were filed when the events had the records they have throughout. -/
theorem ofRecords_of_mem : ∀ {transactions : List TransactionRecord} {events : List SorobanEvent}
    {tx : TransactionParts},
    tx ∈ (ofRecords operations effects refs events transactions).1 →
    ∃ filed : List SorobanEvent, filed.map SorobanEvent.record = events.map SorobanEvent.record ∧
      tx.operations = transactionParts operations effects refs filed tx.record
  | [], _, _, h => absurd h List.not_mem_nil
  | tx' :: transactions, events, tx, h => by
    simp only [ofRecords, List.mem_cons] at h
    rcases h with rfl | h
    · exact ⟨events, rfl, rfl⟩
    · obtain ⟨filed, hfiled, htx⟩ := ofRecords_of_mem h
      have hkeep : ∀ event : SorobanEvent, (setTransaction ⟨tx', none, [], [], []⟩ event).record = event.record :=
        fun _ => rfl
      exact ⟨filed, hfiled.trans (Cells.map_updateAll hkeep _ _), htx⟩

theorem readAll_block {α κ : Type} [DecidableEq κ] (key : α → κ) (k : κ) (cells : List α) : ∀ refs : List Ref,
    readAll (Keyed.block (fun ref => (cells[ref]?).map key) (some k) refs) cells =
      Keyed.block key k (readAll refs cells)
  | [] => rfl
  | ref :: refs => by
    have ih := readAll_block key k cells refs
    rw [Keyed.block_cons]
    unfold readAll at ih ⊢
    rw [List.filterMap_cons]
    cases hcell : cells[ref]? with
    | none => simpa [hcell] using ih
    | some x =>
      simp only [Option.map_some, Option.some.injEq, Keyed.block_cons]
      split
      · rw [List.filterMap_cons, hcell, ih]
      · exact ih

theorem keyed_filed {κ : Type} [DecidableEq κ] (key : SorobanRpcEventResponse → κ) (filed : List SorobanEvent) :
    (fun ref : Ref => (filed[ref]?).map (fun e => key e.record)) =
      (fun ref => ((filed.map SorobanEvent.record)[ref]?).map key) := by
  funext ref
  rw [List.getElem?_map, Option.map_map]
  rfl

theorem getElem?_transactionParts {filed : List SorobanEvent} {tx : TransactionRecord} {i : Nat} {op : OperationParts}
    (h : (transactionParts operations effects refs filed tx)[i]? = some op) :
    (Keyed.block OperationRecord.transactionHash tx.hash operations)[i]? = some op.record ∧
      op.clonedTx = ⟨tx, none, [], [], []⟩ ∧ op.clonedOp.record = op.record ∧
      op.effects = Keyed.block effectKey op.record.id.text effects ∧
      op.events = Keyed.block
        (fun ref => ((filed.map SorobanEvent.record)[ref]?).map SorobanRpcEventResponse.operationIndex) (some i)
        (Keyed.block (fun ref => ((filed.map SorobanEvent.record)[ref]?).map SorobanRpcEventResponse.txHash)
          (some tx.hash) refs) := by
  unfold transactionParts at h
  simp only [List.getElem?_map, List.getElem?_zipIdx, Option.map_map, Option.map_eq_some_iff] at h
  obtain ⟨record, hrecord, rfl⟩ := h
  rw [← keyed_filed, ← keyed_filed]
  simp only [Function.comp_apply, Nat.zero_add]
  exact ⟨hrecord, rfl, rfl, rfl, rfl⟩

theorem map_record_transactionParts (filed : List SorobanEvent) (tx : TransactionRecord) :
    (transactionParts operations effects refs filed tx).map OperationParts.record =
      Keyed.block OperationRecord.transactionHash tx.hash operations := by
  unfold transactionParts
  simp only [List.map_map]
  have hrecord : ((fun op : OperationParts => op.record) ∘ fun (x : OperationRecord × Nat) =>
      partsOf ⟨tx, none, [], [], []⟩ filed x.1 (Keyed.block effectKey x.1.id.text effects)
        (Keyed.block (fun evt => (filed[evt]?).map (fun e => e.record.operationIndex)) (some x.2)
          (Keyed.block (fun item => (filed[item]?).map (fun e => e.record.txHash)) (some tx.hash) refs))) =
      Prod.fst := rfl
  rw [hrecord, List.zipIdx_map_fst]

def NamesTransaction (event : SorobanEvent) : Prop :=
  event.transaction.map (fun tx => tx.record.hash) = some event.record.txHash

theorem txHash_of_mem_transactionParts {filed : List SorobanEvent} {tx : TransactionRecord} {ref : Ref}
    (h : ref ∈ (transactionParts operations effects refs filed tx).flatMap OperationParts.events) {event : SorobanEvent}
    (hevent : filed[ref]? = some event) : event.record.txHash = tx.hash := by
  obtain ⟨op, hop, href⟩ := List.mem_flatMap.1 h
  obtain ⟨i, hi⟩ := List.getElem?_of_mem hop
  rw [(getElem?_transactionParts hi).2.2.2.2] at href
  have hkey := ((Keyed.mem_block _).1 ((Keyed.mem_block _).1 href).1).2
  simpa [List.getElem?_map, hevent] using hkey

theorem namesTransaction_update {filed : List SorobanEvent} {tx : TransactionRecord} {ref : Ref}
    (hnames : ∀ event, filed[ref]? = some event →
      NamesTransaction event ∨ ref ∈ (transactionParts operations effects refs filed tx).flatMap OperationParts.events)
    {event : SorobanEvent}
    (hevent : (updateAll (setTransaction ⟨tx, none, [], [], []⟩)
      ((transactionParts operations effects refs filed tx).flatMap OperationParts.events) filed)[ref]? = some event) :
    NamesTransaction event := by
  have hkeep : ∀ event : SorobanEvent, (setTransaction ⟨tx, none, [], [], []⟩ event).record = event.record :=
    fun _ => rfl
  have hrecords := Cells.map_updateAll hkeep
    ((transactionParts operations effects refs filed tx).flatMap OperationParts.events) filed
  by_cases href : ref ∈ (transactionParts operations effects refs filed tx).flatMap OperationParts.events
  · obtain ⟨event', rfl⟩ := Cells.updateAll_of_mem href hevent
    have hrecord := congrArg (fun l => l[ref]?) hrecords
    simp only [List.getElem?_map, hevent, Option.map_some] at hrecord
    obtain ⟨event'', hfiled, hsame⟩ := Option.map_eq_some_iff.1 hrecord.symm
    have hhash := txHash_of_mem_transactionParts href hfiled
    rw [hsame] at hhash
    exact congrArg some hhash.symm
  · rw [Cells.getElem?_updateAll, List.count_eq_zero.2 href] at hevent
    rw [Function.iterate_zero, Option.map_id] at hevent
    exact (hnames event hevent).resolve_right href

theorem namesTransaction_ofRecords {ref : Ref} : ∀ {transactions : List TransactionRecord} {events : List SorobanEvent},
    (∀ event, events[ref]? = some event → NamesTransaction event) →
    ∀ event, (ofRecords operations effects refs events transactions).2[ref]? = some event → NamesTransaction event
  | [], _, h, event, hevent => h event hevent
  | _ :: _, _, h, event, hevent =>
    namesTransaction_ofRecords (fun _ hevent' =>
      namesTransaction_update (fun event'' h'' => Or.inl (h event'' h'')) hevent') event hevent

/-- **An event given to an operation names its transaction.** -/
theorem namesTransaction_of_mem {ref : Ref} : ∀ {transactions : List TransactionRecord} {events : List SorobanEvent}
    {tx : TransactionParts}, tx ∈ (ofRecords operations effects refs events transactions).1 →
    ref ∈ tx.operations.flatMap OperationParts.events →
    ∀ event, (ofRecords operations effects refs events transactions).2[ref]? = some event → NamesTransaction event
  | [], _, _, htx, _, _, _ => absurd htx List.not_mem_nil
  | tx' :: transactions, events, tx, htx, href, event, hevent => by
    simp only [ofRecords, List.mem_cons] at htx
    rcases htx with rfl | htx
    · exact namesTransaction_ofRecords (fun event' hevent' =>
        namesTransaction_update (fun _ _ => Or.inr href) hevent') event hevent
    · exact namesTransaction_of_mem htx href event hevent

end Parts

section Block

variable (records : LedgerRecords)

abbrev LedgerRecords.parts : List TransactionParts :=
  (blockParts records.transactions records.operations records.effects records.events).1

/-- The block's events, each with its transaction. -/
abbrev LedgerRecords.linked : List SorobanEvent :=
  (blockParts records.transactions records.operations records.effects records.events).2

def LedgerRecords.clonedLedger : StellarBlock := ⟨records.ledger, [], [], [], records.linked⟩

def LedgerRecords.finished : List SorobanEvent :=
  updateAll (setLedger records.clonedLedger) ((allOperations records.parts).flatMap OperationParts.events)
    records.linked

theorem block_eq : records.block =
    { record := records.ledger
      transactions := records.parts.map (TransactionParts.tree records.clonedLedger records.finished)
      operations := (allOperations records.parts).map (OperationParts.tree records.clonedLedger records.finished)
      effects := (allOperations records.parts).flatMap (effectObjects (some records.clonedLedger) parentOf)
      events := records.finished } :=
  assembleBlock_eq records.ledger records.transactions records.operations records.effects records.events

theorem map_record_linked_block : records.linked.map SorobanEvent.record = records.events := by
  have hpart : ∀ tx event, (setTransaction tx event).record = event.record := fun _ _ => rfl
  have h := map_linked hpart records.operations records.effects (List.range' 0 records.events.length)
    records.transactions (fetchedEvents records.events)
  have hfetched : (fetchedEvents records.events).map SorobanEvent.record = records.events := by
    unfold fetchedEvents
    rw [List.map_map]
    exact List.map_id _
  exact h.trans hfetched

theorem map_record_finished : records.finished.map SorobanEvent.record = records.events := by
  have hkeep : ∀ event : SorobanEvent, (setLedger records.clonedLedger event).record = event.record := fun _ => rfl
  exact (Cells.map_updateAll hkeep _ _).trans (map_record_linked_block records)

variable {records}

theorem getElem?_parts {tx : TransactionParts} (htx : tx ∈ records.parts) {i : Nat} {op : OperationParts}
    (hop : tx.operations[i]? = some op) :
    op.clonedTx = ⟨tx.record, none, [], [], []⟩ ∧ op.clonedOp.record = op.record ∧
      op.effects = Keyed.block effectKey op.record.id.text records.effects ∧
      op.events = Keyed.block (fun ref => (records.events[ref]?).map SorobanRpcEventResponse.operationIndex) (some i)
        (Keyed.block (fun ref => (records.events[ref]?).map SorobanRpcEventResponse.txHash) (some tx.record.hash)
          (List.range' 0 records.events.length)) := by
  obtain ⟨filed, hfiled, hops⟩ := ofRecords_of_mem htx
  have hfetched : filed.map SorobanEvent.record = records.events := by
    rw [hfiled]
    unfold fetchedEvents
    rw [List.map_map]
    exact List.map_id _
  rw [hops] at hop
  obtain ⟨-, htx, hclone, heffects, hevents⟩ := getElem?_transactionParts hop
  rw [hfetched] at hevents
  exact ⟨htx, hclone, heffects, hevents⟩

theorem map_record_operations {tx : TransactionParts} (htx : tx ∈ records.parts) :
    tx.operations.map OperationParts.record =
      Keyed.block OperationRecord.transactionHash tx.record.hash records.operations := by
  obtain ⟨filed, -, hops⟩ := ofRecords_of_mem htx
  rw [hops, map_record_transactionParts]

theorem map_record_readAll {tx : TransactionParts} (htx : tx ∈ records.parts) {i : Nat} {op : OperationParts}
    (hop : tx.operations[i]? = some op) :
    (readAll op.events records.finished).map SorobanEvent.record =
      operationEvents records.events tx.record.hash i := by
  rw [(getElem?_parts htx hop).2.2.2, Cells.map_readAll, map_record_finished, readAll_block, readAll_block,
    Cells.readAll_all rfl]
  rfl

variable (records)

theorem holds_block : Holds records records.block := by
  rw [block_eq]
  constructor
  · rfl
  · show (records.parts.map _).map _ = _
    rw [List.map_map]
    exact map_record_ofRecords records.operations records.effects _ records.transactions _
  · rintro _ htx'
    obtain ⟨tx, htx, rfl⟩ := List.mem_map.1 htx'
    show (tx.operations.map _).map _ = _
    rw [List.map_map]
    exact map_record_operations htx
  · rintro _ htx' _ hop'
    obtain ⟨tx, htx, rfl⟩ := List.mem_map.1 htx'
    obtain ⟨op, hop, rfl⟩ := List.mem_map.1 hop'
    obtain ⟨i, hi⟩ := List.getElem?_of_mem hop
    show (op.effects.map _).map _ = _
    rw [List.map_map, (getElem?_parts htx hi).2.2.1]
    exact List.map_id _
  · rintro _ htx' i _ hop'
    obtain ⟨tx, htx, rfl⟩ := List.mem_map.1 htx'
    obtain ⟨op, hop, rfl⟩ := Option.map_eq_some_iff.1 (List.getElem?_map.symm.trans hop')
    exact map_record_readAll htx hop
  · rintro _ htx' _ hop' event hevent
    obtain ⟨tx, htx, rfl⟩ := List.mem_map.1 htx'
    obtain ⟨op, hop, rfl⟩ := List.mem_map.1 hop'
    obtain ⟨ref, -, hcell⟩ := Cells.mem_readAll.1 hevent
    exact List.mem_of_getElem? hcell
  · rintro _ htx'
    obtain ⟨tx, htx, rfl⟩ := List.mem_map.1 htx'
    show _ = (tx.operations.map _).flatMap _
    rw [List.flatMap_map]
    rfl
  · rintro _ htx'
    obtain ⟨tx, htx, rfl⟩ := List.mem_map.1 htx'
    show _ = (tx.operations.map _).flatMap _
    rw [List.flatMap_map]
    rfl
  · show (allOperations records.parts).map _ = (records.parts.map _).flatMap _
    unfold allOperations
    rw [List.map_flatMap, List.flatMap_map]
    rfl
  · show _ = ((allOperations records.parts).map _).flatMap _
    rw [List.flatMap_map]
    rfl
  · exact map_record_finished records

theorem operation_finished {event : SorobanEvent} (h : event ∈ records.finished) : event.operation = none := by
  have hledger : ∀ event, (setLedger records.clonedLedger event).operation = event.operation := fun _ => rfl
  have htransaction : ∀ tx event, (setTransaction tx event).operation = event.operation := fun _ _ => rfl
  have hkept : records.finished.map SorobanEvent.operation =
      (fetchedEvents records.events).map SorobanEvent.operation :=
    (Cells.map_updateAll hledger _ _).trans (map_linked htransaction _ _ _ _ _)
  have hmem : event.operation ∈ (fetchedEvents records.events).map SorobanEvent.operation := by
    rw [← hkept]
    exact List.mem_map_of_mem h
  simp only [fetchedEvents, List.map_map, List.mem_map] at hmem
  obtain ⟨_, _, hnone⟩ := hmem
  exact hnone.symm

theorem event_finished {tx : TransactionParts} (htx : tx ∈ records.parts) {i : Nat} {op : OperationParts}
    (hop : tx.operations[i]? = some op) {event : SorobanEvent} (hevent : event ∈ readAll op.events records.finished) :
    event.ledger.map StellarBlock.record = some records.ledger ∧
      event.transaction.map (fun tx => tx.record.hash) = some tx.record.hash ∧ event.operation = none := by
  obtain ⟨ref, href, hcell⟩ := Cells.mem_readAll.1 hevent
  have hgiven : ref ∈ tx.operations.flatMap OperationParts.events :=
    List.mem_flatMap.2 ⟨op, List.mem_of_getElem? hop, href⟩
  have hall : ref ∈ (allOperations records.parts).flatMap OperationParts.events :=
    List.mem_flatMap.2 ⟨op, List.mem_flatMap.2 ⟨tx, htx, List.mem_of_getElem? hop⟩, href⟩
  have hhash : event.record.txHash = tx.record.hash := by
    have hmem : event.record ∈ operationEvents records.events tx.record.hash i := by
      rw [← map_record_readAll htx hop]
      exact List.mem_map_of_mem hevent
    exact ((Keyed.mem_block _).1 ((Keyed.mem_block _).1 hmem).1).2
  have hnames : NamesTransaction event :=
    Cells.updateAll_keeps (P := NamesTransaction) (f := setLedger records.clonedLedger) (fun _ h => h)
      (namesTransaction_of_mem htx hgiven) hcell
  refine ⟨?_, hnames.trans (congrArg some hhash), operation_finished records (List.mem_of_getElem? hcell)⟩
  obtain ⟨event', rfl⟩ := Cells.updateAll_of_mem hall hcell
  rfl

/-- **Which parents the assembled block's items name**: an event's operation is never set. -/
theorem names_block : Names records.ledger records.block := by
  rw [block_eq]
  constructor
  · rintro _ htx'
    obtain ⟨tx, htx, rfl⟩ := List.mem_map.1 htx'
    rfl
  · rintro _ htx' _ hop'
    obtain ⟨tx, htx, rfl⟩ := List.mem_map.1 htx'
    obtain ⟨op, hop, rfl⟩ := List.mem_map.1 hop'
    obtain ⟨i, hi⟩ := List.getElem?_of_mem hop
    refine ⟨rfl, ?_⟩
    show some op.clonedTx.record = some tx.record
    rw [(getElem?_parts htx hi).1]
  · rintro _ htx' _ hop' _ heffect'
    obtain ⟨tx, htx, rfl⟩ := List.mem_map.1 htx'
    obtain ⟨op, hop, rfl⟩ := List.mem_map.1 hop'
    obtain ⟨effect, heffect, rfl⟩ := List.mem_map.1 heffect'
    obtain ⟨i, hi⟩ := List.getElem?_of_mem hop
    refine ⟨rfl, ?_, ?_⟩
    · show some op.clonedTx.record = some tx.record
      rw [(getElem?_parts htx hi).1]
    · show some op.clonedOp.record = some op.record
      rw [(getElem?_parts htx hi).2.1]
  · rintro _ htx' _ hop' event hevent
    obtain ⟨tx, htx, rfl⟩ := List.mem_map.1 htx'
    obtain ⟨op, hop, rfl⟩ := List.mem_map.1 hop'
    obtain ⟨i, hi⟩ := List.getElem?_of_mem hop
    exact event_finished records htx hi hevent

end Block

end SubqlStellar
