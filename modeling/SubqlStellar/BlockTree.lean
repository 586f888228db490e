import SubqlStellar.BlockHeap
/-!
# BlockTree — the block the assembly ends with

Read off the finished heap, the block is a tree of the fetched records (`assembleBlock_eq`): each transaction holds the
operations of its hash, each operation the effects of its id and the events of its place, and the flat lists of the
block and of its transactions are the concatenations of theirs.
-/
namespace SubqlStellar

open Cells (Ref readAll updateAll)
open Keyed (block)
open OperationParts TransactionParts

/-- The transaction an operation's clone is taken of. -/
abbrev parentOf (op : OperationParts) : Option StellarTransaction := some op.clonedTx

/-- The finished operation, in the block cloned as `clonedLedger`, with the events standing as `events`. -/
def OperationParts.tree (clonedLedger : StellarBlock) (events : List SorobanEvent) (op : OperationParts) :
    StellarOperation where
  record := op.record
  ledger := some clonedLedger
  transaction := some op.clonedTx
  effects := op.effectObjects (some clonedLedger) parentOf
  events := readAll op.events events

def TransactionParts.tree (clonedLedger : StellarBlock) (events : List SorobanEvent) (tx : TransactionParts) :
    StellarTransaction where
  record := tx.record
  ledger := some clonedLedger
  operations := tx.operations.map (OperationParts.tree clonedLedger events)
  effects := tx.operations.flatMap (effectObjects (some clonedLedger) parentOf)
  events := tx.operations.flatMap (fun op => readAll op.events events)

section Read

variable (clonedLedger : StellarBlock) (heap : Heap)

theorem map_operationTree : ∀ (ops : List OperationParts) (before after : List StellarEffect),
    heap.effects = before ++ ops.flatMap (effectObjects (some clonedLedger) parentOf) ++ after →
    (operationObjects (some clonedLedger) parentOf before.length ops).map heap.operationTree =
      ops.map (OperationParts.tree clonedLedger heap.events)
  | [], _, _, _ => rfl
  | op :: ops, before, after, heffects => by
    rw [List.flatMap_cons] at heffects
    have hread : readAll (List.range' before.length op.effects.length) heap.effects =
        effectObjects (some clonedLedger) parentOf op := by
      have h := Cells.readAll_range' before (effectObjects (some clonedLedger) parentOf op)
        (ops.flatMap (effectObjects (some clonedLedger) parentOf) ++ after)
      rw [effectObjects, List.length_map, ← effectObjects] at h
      rw [heffects, ← List.append_assoc before, List.append_assoc (before ++ _)]
      exact h
    have hrest := map_operationTree ops (before ++ effectObjects (some clonedLedger) parentOf op) after
      (by rw [heffects]; simp only [List.append_assoc])
    rw [List.length_append, effectObjects, List.length_map] at hrest
    rw [operationObjects_cons, List.map_cons, List.map_cons, hrest]
    simp only [Heap.operationTree, hread]
    rfl

theorem map_transactionTree : ∀ (txs : List TransactionParts) (beforeOps : List OperationObject)
    (before : List StellarEffect),
    heap.operations = beforeOps ++ operationObjects (some clonedLedger) parentOf before.length (allOperations txs) →
    heap.effects = before ++ (allOperations txs).flatMap (effectObjects (some clonedLedger) parentOf) →
    (transactionObjects (some clonedLedger) beforeOps.length before.length txs).map heap.transactionTree =
      txs.map (TransactionParts.tree clonedLedger heap.events)
  | [], _, _, _, _ => rfl
  | tx :: txs, beforeOps, before, hops, heffects => by
    rw [allOperations_cons, operationObjects_append, ← List.append_assoc] at hops
    rw [allOperations_cons, List.flatMap_append, ← List.append_assoc] at heffects
    have hreadOps : readAll (List.range' beforeOps.length tx.operations.length) heap.operations =
        operationObjects (some clonedLedger) parentOf before.length tx.operations := by
      have h := Cells.readAll_range' beforeOps
        (operationObjects (some clonedLedger) parentOf before.length tx.operations)
        (operationObjects (some clonedLedger) parentOf (before.length + effectCount tx.operations) (allOperations txs))
      rwa [length_operationObjects, ← hops] at h
    have hreadEffects : readAll (List.range' before.length (effectCount tx.operations)) heap.effects =
        tx.operations.flatMap (effectObjects (some clonedLedger) parentOf) := by
      have h := Cells.readAll_range' before (tx.operations.flatMap (effectObjects (some clonedLedger) parentOf))
        ((allOperations txs).flatMap (effectObjects (some clonedLedger) parentOf))
      rwa [length_effectObjects, ← heffects] at h
    have hrest := map_transactionTree txs
      (beforeOps ++ operationObjects (some clonedLedger) parentOf before.length tx.operations)
      (before ++ tx.operations.flatMap (effectObjects (some clonedLedger) parentOf))
      (by rw [List.length_append, length_effectObjects]; exact hops) heffects
    rw [List.length_append, List.length_append, length_operationObjects, length_effectObjects] at hrest
    rw [transactionObjects_cons, List.map_cons, List.map_cons, hrest]
    simp only [Heap.transactionTree, hreadOps, hreadEffects,
      map_operationTree clonedLedger heap tx.operations before _ heffects, Cells.readAll_flatMap]
    rfl

theorem length_transactionObjects : ∀ (o e : Nat) (txs : List TransactionParts),
    (transactionObjects (some clonedLedger) o e txs).length = txs.length
  | _, _, [] => rfl
  | o, e, tx :: txs => by
    rw [transactionObjects_cons, List.length_cons, List.length_cons, length_transactionObjects]

theorem blockTree_finished (ledger : LedgerRecord) (txs : List TransactionParts) (events : List SorobanEvent) (n : Nat)
    (hn : events.length = n) :
    Heap.blockTree
      { events
        effects := (allOperations txs).flatMap (effectObjects (some clonedLedger) parentOf)
        operations := operationObjects (some clonedLedger) parentOf 0 (allOperations txs)
        transactions := transactionObjects (some clonedLedger) 0 0 txs }
      { record := ledger
        transactions := List.range' 0 txs.length
        operations := List.range' 0 (allOperations txs).length
        effects := List.range' 0 (effectCount (allOperations txs))
        events := List.range' 0 n } =
      { record := ledger
        transactions := txs.map (TransactionParts.tree clonedLedger events)
        operations := (allOperations txs).map (OperationParts.tree clonedLedger events)
        effects := (allOperations txs).flatMap (effectObjects (some clonedLedger) parentOf)
        events := events } := by
  simp only [Heap.blockTree]
  rw [Cells.readAll_all (length_transactionObjects clonedLedger 0 0 txs),
    Cells.readAll_all (length_operationObjects _ _ 0 (allOperations txs)),
    Cells.readAll_all (length_effectObjects _ _ (allOperations txs)), Cells.readAll_all hn]
  have hops := map_operationTree clonedLedger ⟨events,
      (allOperations txs).flatMap (effectObjects (some clonedLedger) parentOf),
      operationObjects (some clonedLedger) parentOf 0 (allOperations txs),
      transactionObjects (some clonedLedger) 0 0 txs⟩
    (allOperations txs) [] [] (List.append_nil _).symm
  have htxs := map_transactionTree clonedLedger ⟨events,
      (allOperations txs).flatMap (effectObjects (some clonedLedger) parentOf),
      operationObjects (some clonedLedger) parentOf 0 (allOperations txs),
      transactionObjects (some clonedLedger) 0 0 txs⟩
    txs [] [] rfl rfl
  simp only [List.length_nil] at hops htxs
  rw [hops, htxs]

end Read

def fetchedEvents (events : List SorobanRpcEventResponse) : List SorobanEvent :=
  events.map (fun event => ⟨event, none, none, none⟩)

def blockParts (transactions : List TransactionRecord) (operations : List OperationRecord) (effects : List EffectRecord)
    (events : List SorobanRpcEventResponse) : List TransactionParts × List SorobanEvent :=
  ofRecords operations effects (List.range' 0 events.length) (fetchedEvents events) transactions

theorem map_record_ofRecords (operations : List OperationRecord) (effects : List EffectRecord) (refs : List Ref) :
    ∀ (transactions : List TransactionRecord) (events : List SorobanEvent),
    (ofRecords operations effects refs events transactions).1.map TransactionParts.record = transactions
  | [], _ => rfl
  | tx :: transactions, events => by
    simp only [ofRecords, List.map_cons, map_record_ofRecords operations effects refs transactions]

theorem map_linked {β : Type} {part : SorobanEvent → β}
    (hpart : ∀ tx event, part (setTransaction tx event) = part event)
    (operations : List OperationRecord) (effects : List EffectRecord) (refs : List Ref) :
    ∀ (transactions : List TransactionRecord) (events : List SorobanEvent),
    (ofRecords operations effects refs events transactions).2.map part = events.map part
  | [], _ => rfl
  | _ :: transactions, _ =>
    (map_linked hpart operations effects refs transactions _).trans (Cells.map_updateAll (hpart _) _ _)

theorem assembleBlock_eq (ledger : LedgerRecord) (transactions : List TransactionRecord)
    (operations : List OperationRecord) (effects : List EffectRecord) (events : List SorobanRpcEventResponse) :
    assembleBlock ledger transactions operations effects events =
      let (txs, linked) := blockParts transactions operations effects events
      let clonedLedger : StellarBlock := ⟨ledger, [], [], [], linked⟩
      let events := updateAll (setLedger clonedLedger) ((allOperations txs).flatMap OperationParts.events) linked
      { record := ledger
        transactions := txs.map (TransactionParts.tree clonedLedger events)
        operations := (allOperations txs).map (OperationParts.tree clonedLedger events)
        effects := (allOperations txs).flatMap (effectObjects (some clonedLedger) parentOf)
        events := events } := by
  unfold assembleBlock wrapLedger
  simp only [bind_apply, get_apply, mapM_wrapEvent, wrapTransactionsForLedger_apply, Heap.empty, List.length_nil,
    List.nil_append]
  have hparts : ofRecords operations effects (List.range' 0 events.length)
      (events.map (fun event => ⟨event, none, none, none⟩)) transactions =
      blockParts transactions operations effects events := rfl
  have hlength : (blockParts transactions operations effects events).1.length = transactions.length := by
    have h := congrArg List.length (map_record_ofRecords operations effects (List.range' 0 events.length) transactions
      (fetchedEvents events))
    rwa [List.length_map] at h
  have hevents : (blockParts transactions operations effects events).2.length = events.length := by
    have hpart : ∀ tx event, (setTransaction tx event).record = event.record := fun _ _ => rfl
    have h := congrArg List.length (map_linked hpart operations effects (List.range' 0 events.length) transactions
      (fetchedEvents events))
    rwa [List.length_map, List.length_map, fetchedEvents, List.length_map] at h
  rw [hparts, ← hlength, ← hevents]
  generalize blockParts transactions operations effects events = parts
  obtain ⟨txs, linked⟩ := parts
  have hclone : Heap.blockTree ⟨linked, (allOperations txs).flatMap (effectObjects none parentOf),
      operationObjects none parentOf 0 (allOperations txs), transactionObjects none 0 0 txs⟩
      ⟨ledger, [], [], [], List.range' 0 linked.length⟩ = ⟨ledger, [], [], [], linked⟩ := by
    simp only [Heap.blockTree, Cells.readAll_nil, List.map_nil]
    rw [Cells.readAll_all rfl]
  have hloop := foldlM_addTransaction ⟨ledger, [], [], [], linked⟩ parentOf txs [] [] []
    ⟨ledger, [], [], [], List.range' 0 linked.length⟩
    ⟨linked, (allOperations txs).flatMap (effectObjects none parentOf),
      operationObjects none parentOf 0 (allOperations txs), transactionObjects none 0 0 txs⟩ rfl rfl rfl
  simp only [List.length_nil, List.nil_append] at hloop
  simp only [hclone, hloop]
  exact blockTree_finished _ ledger txs _ _ (Cells.length_updateAll _ _ _)

end SubqlStellar
