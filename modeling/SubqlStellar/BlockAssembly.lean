import SubqlStellar.Cells
import SubqlStellar.Records
import SubqlStellar.Tables
/-!
# BlockAssembly — how a ledger's records become a block

`fetchAndWrapLedger` wraps the fetched records in objects that its loops go on to change: an event object is in
`block.events`, in its operation's and in its transaction's list at once, and a parent reference set through one list is
seen through all of them.  So the objects live in a heap, the lists hold references, and what `cloneDeep` makes of an
object is the tree it stands for at that moment.  `assembleBlock` is the tree of the finished block.
-/
namespace SubqlStellar

open Cells (Ref readAll)
open Keyed (Table groupOn)

structure OperationObject where
  record : OperationRecord
  ledger : Option StellarBlock
  transaction : Option StellarTransaction
  effects : List Ref
  events : List Ref

structure TransactionObject where
  record : TransactionRecord
  ledger : Option StellarBlock
  operations : List Ref
  effects : List Ref
  events : List Ref

structure BlockObject where
  record : LedgerRecord
  transactions : List Ref
  operations : List Ref
  effects : List Ref
  events : List Ref

/-- The wrapped objects.  Effects and events have no lists of their own. -/
structure Heap where
  events : List SorobanEvent
  effects : List StellarEffect
  operations : List OperationObject
  transactions : List TransactionObject

namespace Heap

def empty : Heap := ⟨[], [], [], []⟩

/-! The tree an object stands for. -/

def operationTree (heap : Heap) (op : OperationObject) : StellarOperation where
  record := op.record
  ledger := op.ledger
  transaction := op.transaction
  effects := readAll op.effects heap.effects
  events := readAll op.events heap.events

def transactionTree (heap : Heap) (tx : TransactionObject) : StellarTransaction where
  record := tx.record
  ledger := tx.ledger
  operations := (readAll tx.operations heap.operations).map heap.operationTree
  effects := readAll tx.effects heap.effects
  events := readAll tx.events heap.events

def blockTree (heap : Heap) (block : BlockObject) : StellarBlock where
  record := block.record
  transactions := (readAll block.transactions heap.transactions).map heap.transactionTree
  operations := (readAll block.operations heap.operations).map heap.operationTree
  effects := readAll block.effects heap.effects
  events := readAll block.events heap.events

end Heap

abbrev Assembly := StateM Heap

namespace Assembly

def allocEvent (event : SorobanEvent) : Assembly Ref := fun heap =>
  (heap.events.length, { heap with events := heap.events ++ [event] })

def allocEffect (effect : StellarEffect) : Assembly Ref := fun heap =>
  (heap.effects.length, { heap with effects := heap.effects ++ [effect] })

def allocOperation (op : OperationObject) : Assembly Ref := fun heap =>
  (heap.operations.length, { heap with operations := heap.operations ++ [op] })

def allocTransaction (tx : TransactionObject) : Assembly Ref := fun heap =>
  (heap.transactions.length, { heap with transactions := heap.transactions ++ [tx] })

def updateEvent (f : SorobanEvent → SorobanEvent) (event : Ref) : Assembly Unit := fun heap =>
  ((), { heap with events := heap.events.modify event f })

def updateEffect (f : StellarEffect → StellarEffect) (effect : Ref) : Assembly Unit := fun heap =>
  ((), { heap with effects := heap.effects.modify effect f })

def updateOperation (f : OperationObject → OperationObject) (op : Ref) : Assembly Unit := fun heap =>
  ((), { heap with operations := heap.operations.modify op f })

def updateTransaction (f : TransactionObject → TransactionObject) (tx : Ref) : Assembly Unit := fun heap =>
  ((), { heap with transactions := heap.transactions.modify tx f })

def cloneOperation (op : Ref) : Assembly (Option StellarOperation) := fun heap =>
  ((heap.operations[op]?).map heap.operationTree, heap)

def cloneTransaction (tx : Ref) : Assembly (Option StellarTransaction) := fun heap =>
  ((heap.transactions[tx]?).map heap.transactionTree, heap)

def operationLists (op : Ref) : Assembly (List Ref × List Ref) := fun heap =>
  ((((heap.operations[op]?).map OperationObject.effects).getD [],
    ((heap.operations[op]?).map OperationObject.events).getD []), heap)

def transactionOperations (tx : Ref) : Assembly (List Ref) := fun heap =>
  (((heap.transactions[tx]?).map TransactionObject.operations).getD [], heap)

end Assembly

open Assembly

def wrapEvent (event : SorobanRpcEventResponse) : Assembly Ref := allocEvent ⟨event, none, none, none⟩

def wrapEffect (effect : EffectRecord) : Assembly Ref := allocEffect ⟨effect, none, none, none⟩

def addEffect (clonedOp : Option StellarOperation) (wrappedOp effect : Ref) : Assembly Unit := do
  updateEffect (fun e => { e with operation := clonedOp }) effect
  updateOperation (fun o => { o with effects := o.effects ++ [effect] }) wrappedOp

/-- One operation of `wrapOperationsForTx`, with the effects and events filed for it. -/
def wrapOperation (op : OperationRecord) (opEffects : List EffectRecord) (opEvents : List Ref) : Assembly Ref := do
  let effects ← opEffects.mapM wrapEffect
  let wrappedOp ← allocOperation ⟨op, none, none, [], opEvents⟩
  let clonedOp ← cloneOperation wrappedOp
  effects.forM (addEffect clonedOp wrappedOp)
  return wrappedOp

def wrapOperationsForTx (operations : List OperationRecord) (effectsForSequence : Table String (List EffectRecord))
    (events : List Ref) : Assembly (List Ref) := do
  let heap ← get
  let groupedEvts := groupOn (fun evt => (heap.events[evt]?).map (fun e => e.record.operationIndex)) events
  operations.zipIdx.mapM (fun (op, index) =>
    wrapOperation op (effectsForSequence.at_ op.id.text) (groupedEvts.at_ (some index)))

def setOnOperation (setOp : OperationObject → OperationObject) (setEffect : StellarEffect → StellarEffect)
    (setEvent : SorobanEvent → SorobanEvent) (op : Ref) : Assembly Unit := do
  let (effects, events) ← operationLists op
  updateOperation setOp op
  effects.forM (updateEffect setEffect)
  events.forM (updateEvent setEvent)

/-- `BigInt(id.split('-')[0]).toString()`: the prefix without leading zeros. -/
def effectKey (effect : EffectRecord) : String := Nat.repr (Nat.ofDigitChars 10 (idPrefix effect.id.text) 0)

def addOperation (wrappedTx op : Ref) : Assembly Unit := do
  let (effects, events) ← operationLists op
  updateTransaction (fun t => { t with effects := t.effects ++ effects, events := t.events ++ events }) wrappedTx

def wrapTransaction (operationsForSequence : List OperationRecord) (effectsForSequence : List EffectRecord)
    (eventsForSequence : List Ref) (tx : TransactionRecord) : Assembly Ref := do
  let wrappedTx ← allocTransaction ⟨tx, none, [], [], []⟩
  let groupedEffects := groupOn effectKey effectsForSequence
  let groupedOperations := groupOn OperationRecord.transactionHash operationsForSequence
  let heap ← get
  let groupedEvents := groupOn (fun item => (heap.events[item]?).map (fun e => e.record.txHash)) eventsForSequence
  let clonedTx ← cloneTransaction wrappedTx
  let operations ← wrapOperationsForTx (groupedOperations.at_ tx.hash) groupedEffects (groupedEvents.at_ (some tx.hash))
  operations.forM (setOnOperation (fun op => { op with transaction := clonedTx })
    (fun effect => { effect with transaction := clonedTx }) (fun event => { event with transaction := clonedTx }))
  updateTransaction (fun t => { t with operations := t.operations ++ operations }) wrappedTx
  operations.forM (addOperation wrappedTx)
  return wrappedTx

def wrapTransactionsForLedger (transactions : List TransactionRecord) (operationsForSequence : List OperationRecord)
    (effectsForSequence : List EffectRecord) (eventsForSequence : List Ref) : Assembly (List Ref) :=
  transactions.mapM (wrapTransaction operationsForSequence effectsForSequence eventsForSequence)

def operationEffects (op : Ref) : Assembly (List Ref) := do return (← operationLists op).1

/-- One transaction of the last loop of `fetchAndWrapLedger`. -/
def addTransaction (clonedLedger : StellarBlock) (wrappedLedger : BlockObject) (tx : Ref) : Assembly BlockObject := do
  updateTransaction (fun t => { t with ledger := some clonedLedger }) tx
  let operations ← transactionOperations tx
  operations.forM (setOnOperation (fun op => { op with ledger := some clonedLedger })
    (fun effect => { effect with ledger := some clonedLedger })
    (fun event => { event with ledger := some clonedLedger }))
  let effects ← operations.mapM operationEffects
  return { wrappedLedger with
    transactions := wrappedLedger.transactions ++ [tx]
    operations := wrappedLedger.operations ++ operations
    effects := wrappedLedger.effects ++ effects.flatten }

/-- `fetchAndWrapLedger`, from the fetched records on. -/
def wrapLedger (ledger : LedgerRecord) (transactions : List TransactionRecord) (operations : List OperationRecord)
    (effects : List EffectRecord) (eventsForSequence : List Ref) : Assembly BlockObject := do
  let wrappedLedger : BlockObject := ⟨ledger, [], [], [], eventsForSequence⟩
  let wrapperTxs ← wrapTransactionsForLedger transactions operations effects eventsForSequence
  let clonedLedger := (← get).blockTree wrappedLedger
  wrapperTxs.foldlM (addTransaction clonedLedger) wrappedLedger

def assembleBlock (ledger : LedgerRecord) (transactions : List TransactionRecord) (operations : List OperationRecord)
    (effects : List EffectRecord) (events : List SorobanRpcEventResponse) : StellarBlock :=
  let assembly : Assembly BlockObject := do
    let eventsForSequence ← events.mapM wrapEvent
    wrapLedger ledger transactions operations effects eventsForSequence
  let (block, heap) := assembly Heap.empty
  heap.blockTree block

end SubqlStellar
