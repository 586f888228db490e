import SubqlStellar.BlockAssembly
/-!
# BlockHeap — what the loops of the assembly leave in the heap

Objects are allocated in the order of the fetched lists, so each list of references an object holds is a stretch of the
heap.  `OperationParts` is what the loops put into one operation; `operationObjects` and `effectObjects` lay parts out
in the heap.  Each loop is then one equation between heaps.
-/
namespace SubqlStellar

open Cells (Ref readAll updateAll)
open Keyed (Table groupOn)
open Assembly

/-- An operation, the clones its effects and events refer to, and what is filed for it. -/
structure OperationParts where
  record : OperationRecord
  clonedTx : StellarTransaction
  clonedOp : StellarOperation
  effects : List EffectRecord
  events : List Ref

namespace OperationParts

/-- Its effects, at a stage of the assembly: with what they have for a ledger and a transaction. -/
def effectObjects (ledger : Option StellarBlock) (transaction : OperationParts → Option StellarTransaction)
    (op : OperationParts) : List StellarEffect :=
  op.effects.map (fun effect => ⟨effect, ledger, transaction op, some op.clonedOp⟩)

/-- Operations in the heap, the first one's effects at place `e`. -/
def operationObjects (ledger : Option StellarBlock) (transaction : OperationParts → Option StellarTransaction) :
    Nat → List OperationParts → List OperationObject
  | _, []      => []
  | e, op :: ops =>
    ⟨op.record, ledger, transaction op, List.range' e op.effects.length, op.events⟩ ::
      operationObjects ledger transaction (e + op.effects.length) ops

def effectCount (ops : List OperationParts) : Nat := (ops.flatMap OperationParts.effects).length

end OperationParts

open OperationParts

section Layout

variable (ledger : Option StellarBlock) (transaction : OperationParts → Option StellarTransaction)

theorem length_effectObjects (ops : List OperationParts) :
    (ops.flatMap (effectObjects ledger transaction)).length = effectCount ops := by
  unfold effectCount
  rw [List.length_flatMap, List.length_flatMap]
  congr 1
  apply List.map_congr_left
  intro op _
  exact List.length_map _

theorem operationObjects_cons (e : Nat) (op : OperationParts) (ops : List OperationParts) :
    operationObjects ledger transaction e (op :: ops) =
      ⟨op.record, ledger, transaction op, List.range' e op.effects.length, op.events⟩ ::
        operationObjects ledger transaction (e + op.effects.length) ops := rfl

theorem length_operationObjects : ∀ (e : Nat) (ops : List OperationParts),
    (operationObjects ledger transaction e ops).length = ops.length
  | _, [] => rfl
  | e, op :: ops => by
    rw [operationObjects_cons, List.length_cons, List.length_cons, length_operationObjects]

theorem operationObjects_append : ∀ (e : Nat) (ops ops' : List OperationParts),
    operationObjects ledger transaction e (ops ++ ops') =
      operationObjects ledger transaction e ops ++ operationObjects ledger transaction (e + effectCount ops) ops'
  | e, [], ops' => by simp [operationObjects, effectCount]
  | e, op :: ops, ops' => by
    have hcount : e + effectCount (op :: ops) = e + op.effects.length + effectCount ops := by
      simp [effectCount, Nat.add_assoc]
    rw [List.cons_append, operationObjects_cons, operationObjects_append, operationObjects_cons, List.cons_append,
      hcount]

theorem effects_operationObjects : ∀ (e : Nat) (ops : List OperationParts),
    (operationObjects ledger transaction e ops).flatMap OperationObject.effects = List.range' e (effectCount ops)
  | _, [] => rfl
  | e, op :: ops => by
    rw [operationObjects_cons, List.flatMap_cons, effects_operationObjects]
    have hcount : effectCount (op :: ops) = op.effects.length + effectCount ops := by simp [effectCount]
    rw [hcount, ← List.range'_append_1]

theorem events_operationObjects : ∀ (e : Nat) (ops : List OperationParts),
    (operationObjects ledger transaction e ops).flatMap OperationObject.events = ops.flatMap OperationParts.events
  | _, [] => rfl
  | e, op :: ops => by
    rw [operationObjects_cons, List.flatMap_cons, List.flatMap_cons, events_operationObjects]

variable {ledger transaction}

theorem map_operationObjects {f : OperationObject → OperationObject} (ledger' : Option StellarBlock)
    (transaction' : OperationParts → Option StellarTransaction) : ∀ (e : Nat) {ops : List OperationParts},
    (∀ op ∈ ops, ∀ effects events : List Ref,
      f ⟨op.record, ledger, transaction op, effects, events⟩ = ⟨op.record, ledger', transaction' op, effects, events⟩) →
    (operationObjects ledger transaction e ops).map f = operationObjects ledger' transaction' e ops
  | _, [], _ => rfl
  | e, op :: ops, hf => by
    rw [operationObjects_cons, operationObjects_cons, List.map_cons, hf op List.mem_cons_self,
      map_operationObjects ledger' transaction' _ (fun op' h => hf op' (List.mem_cons_of_mem op h))]

theorem map_effectObjects {f : StellarEffect → StellarEffect} (ledger' : Option StellarBlock)
    (transaction' : OperationParts → Option StellarTransaction) {ops : List OperationParts}
    (hf : ∀ op ∈ ops, ∀ effect : EffectRecord, f ⟨effect, ledger, transaction op, some op.clonedOp⟩ =
      ⟨effect, ledger', transaction' op, some op.clonedOp⟩) :
    (ops.flatMap (effectObjects ledger transaction)).map f = ops.flatMap (effectObjects ledger' transaction') := by
  rw [List.map_flatMap]
  apply List.flatMap_congr
  intro op hop
  unfold effectObjects
  rw [List.map_map]
  exact List.map_congr_left (fun effect _ => hf op hop effect)

end Layout

section Loops

theorem bind_apply {α β : Type} (x : Assembly α) (f : α → Assembly β) (heap : Heap) :
    (x >>= f) heap = f (x heap).1 (x heap).2 := rfl

theorem pure_apply {α : Type} (a : α) (heap : Heap) : (pure a : Assembly α) heap = (a, heap) := rfl

theorem get_apply (heap : Heap) : (get : Assembly Heap) heap = (heap, heap) := rfl

theorem mapM_cons_apply {α β : Type} (f : α → Assembly β) (a : α) (l : List α) (heap : Heap) :
    List.mapM f (a :: l) heap =
      ((f a heap).1 :: (List.mapM f l (f a heap).2).1, (List.mapM f l (f a heap).2).2) := by
  rw [List.mapM_cons]
  rfl

theorem forM_cons_apply {α : Type} (f : α → Assembly Unit) (a : α) (l : List α) (heap : Heap) :
    List.forM (a :: l) f heap = List.forM l f (f a heap).2 := rfl

theorem mapM_wrapEvent : ∀ (events : List SorobanRpcEventResponse) (heap : Heap),
    events.mapM wrapEvent heap = (List.range' heap.events.length events.length,
      { heap with events := heap.events ++ events.map (fun event => ⟨event, none, none, none⟩) })
  | [], heap => by simp [List.mapM_nil, pure_apply]
  | event :: events, heap => by
    rw [mapM_cons_apply, mapM_wrapEvent]
    simp [wrapEvent, allocEvent, List.range'_succ]

theorem mapM_wrapEffect : ∀ (effects : List EffectRecord) (heap : Heap),
    effects.mapM wrapEffect heap = (List.range' heap.effects.length effects.length,
      { heap with effects := heap.effects ++ effects.map (fun effect => ⟨effect, none, none, none⟩) })
  | [], heap => by simp [List.mapM_nil, pure_apply]
  | effect :: effects, heap => by
    rw [mapM_cons_apply, mapM_wrapEffect]
    simp [wrapEffect, allocEffect, List.range'_succ]

theorem forM_updateEffect (f : StellarEffect → StellarEffect) : ∀ (refs : List Ref) (heap : Heap),
    List.forM refs (updateEffect f) heap = ((), { heap with effects := updateAll f refs heap.effects })
  | [], _ => rfl
  | ref :: refs, heap => by
    rw [forM_cons_apply, forM_updateEffect]
    rfl

theorem forM_updateEvent (f : SorobanEvent → SorobanEvent) : ∀ (refs : List Ref) (heap : Heap),
    List.forM refs (updateEvent f) heap = ((), { heap with events := updateAll f refs heap.events })
  | [], _ => rfl
  | ref :: refs, heap => by
    rw [forM_cons_apply, forM_updateEvent]
    rfl

theorem forM_addEffect (clonedOp : Option StellarOperation) (wrappedOp : Ref) : ∀ (refs : List Ref) (heap : Heap),
    List.forM refs (addEffect clonedOp wrappedOp) heap = ((), { heap with
      effects := updateAll (fun e => { e with operation := clonedOp }) refs heap.effects
      operations := heap.operations.modify wrappedOp (fun o => { o with effects := o.effects ++ refs }) })
  | [], heap => by
    have hid : (fun o : OperationObject => { o with effects := o.effects ++ [] }) = id := by
      funext o
      simp
    rw [hid, List.modify_id]
    rfl
  | ref :: refs, heap => by
    have hpush : (fun o : OperationObject => { o with effects := o.effects ++ ref :: refs }) =
        (fun o => { o with effects := o.effects ++ refs }) ∘ (fun o => { o with effects := o.effects ++ [ref] }) := by
      funext o
      simp
    rw [forM_cons_apply, forM_addEffect, hpush, ← List.modify_modify_eq]
    rfl

/-- **One operation wrapped**: its effects and it are new in the heap, and refer to a clone without effects. -/
theorem wrapOperation_apply (op : OperationRecord) (opEffects : List EffectRecord) (opEvents : List Ref) (heap : Heap) :
    wrapOperation op opEffects opEvents heap = (heap.operations.length,
      { heap with
        effects := heap.effects ++
          opEffects.map (fun effect => ⟨effect, none, none, some ⟨op, none, none, [], readAll opEvents heap.events⟩⟩)
        operations := heap.operations ++
          [⟨op, none, none, List.range' heap.effects.length opEffects.length, opEvents⟩] }) := by
  unfold wrapOperation
  have hread : ∀ (ops : List OperationObject) (o : OperationObject), (ops ++ [o])[ops.length]? = some o := by simp
  simp only [bind_apply, mapM_wrapEffect, allocOperation, cloneOperation, forM_addEffect, pure_apply, hread,
    Option.map_some, Heap.operationTree, Cells.readAll_nil]
  rw [Cells.modify_middle]
  have hupdate := Cells.updateAll_range' (fun e : StellarEffect =>
      { e with operation := some ⟨op, none, none, [], readAll opEvents heap.events⟩ }) heap.effects
    (opEffects.map (fun effect => ⟨effect, none, none, none⟩)) []
  rw [List.append_nil, List.append_nil, List.length_map, List.map_map] at hupdate
  rw [hupdate]
  rfl

def partsOf (clonedTx : StellarTransaction) (events : List SorobanEvent) (op : OperationRecord)
    (opEffects : List EffectRecord) (opEvents : List Ref) : OperationParts :=
  ⟨op, clonedTx, ⟨op, none, none, [], readAll opEvents events⟩, opEffects, opEvents⟩

theorem mapM_wrapOperation {γ : Type} (clonedTx : StellarTransaction) (record : γ → OperationRecord)
    (opEffects : γ → List EffectRecord) (opEvents : γ → List Ref) : ∀ (l : List γ) (heap : Heap),
    List.mapM (fun x => wrapOperation (record x) (opEffects x) (opEvents x)) l heap =
      (List.range' heap.operations.length l.length,
        let ops := l.map (fun x => partsOf clonedTx heap.events (record x) (opEffects x) (opEvents x))
        { heap with
          effects := heap.effects ++ ops.flatMap (effectObjects none (fun _ => none))
          operations := heap.operations ++ operationObjects none (fun _ => none) heap.effects.length ops })
  | [], heap => by
    simp only [List.mapM_nil, pure_apply, List.map_nil, List.flatMap_nil, List.append_nil, operationObjects]
    rfl
  | x :: l, heap => by
    rw [mapM_cons_apply, wrapOperation_apply, mapM_wrapOperation clonedTx]
    simp only [List.length_append, List.length_map, List.length_cons, List.range'_succ,
      List.map_cons, List.flatMap_cons, operationObjects_cons, List.append_assoc, List.singleton_append]
    rfl

theorem wrapOperationsForTx_apply (clonedTx : StellarTransaction) (operations : List OperationRecord)
    (effectsForSequence : Table String (List EffectRecord)) (events : List Ref) (heap : Heap) :
    wrapOperationsForTx operations effectsForSequence events heap =
      (List.range' heap.operations.length operations.length,
        let ops := operations.zipIdx.map (fun x => partsOf clonedTx heap.events x.1 (effectsForSequence.at_ x.1.id.text)
          (Keyed.block (fun evt => (heap.events[evt]?).map (fun e => e.record.operationIndex)) (some x.2) events))
        { heap with
          effects := heap.effects ++ ops.flatMap (effectObjects none (fun _ => none))
          operations := heap.operations ++ operationObjects none (fun _ => none) heap.effects.length ops }) := by
  unfold wrapOperationsForTx
  simp only [bind_apply, get_apply, Keyed.at_groupOn]
  rw [mapM_wrapOperation clonedTx, List.length_zipIdx]

theorem setOnOperation_apply (setOp : OperationObject → OperationObject) (setEffect : StellarEffect → StellarEffect)
    (setEvent : SorobanEvent → SorobanEvent) (ledger : Option StellarBlock)
    (transaction : OperationParts → Option StellarTransaction) {op : OperationParts} {object : OperationObject}
    {before after : List OperationObject} {beforeEffects afterEffects : List StellarEffect} {heap : Heap}
    (hobject : object =
      ⟨op.record, ledger, transaction op, List.range' beforeEffects.length op.effects.length, op.events⟩)
    (hops : heap.operations = before ++ object :: after)
    (heffects : heap.effects = beforeEffects ++ effectObjects ledger transaction op ++ afterEffects) :
    setOnOperation setOp setEffect setEvent before.length heap = ((), { heap with
      operations := before ++ setOp object :: after
      effects := beforeEffects ++ (effectObjects ledger transaction op).map setEffect ++ afterEffects
      events := updateAll setEvent op.events heap.events }) := by
  have hlists : operationLists before.length heap =
      ((List.range' beforeEffects.length op.effects.length, op.events), heap) := by
    simp [operationLists, hops, hobject]
  have hmodify : heap.operations.modify before.length setOp = before ++ setOp object :: after := by
    rw [hops, Cells.modify_middle]
  have hupdate : updateAll setEffect (List.range' beforeEffects.length op.effects.length) heap.effects =
      beforeEffects ++ (effectObjects ledger transaction op).map setEffect ++ afterEffects := by
    have h := Cells.updateAll_range' setEffect beforeEffects (effectObjects ledger transaction op) afterEffects
    rw [effectObjects, List.length_map, ← effectObjects] at h
    rw [heffects, h]
  unfold setOnOperation
  simp only [bind_apply, hlists, updateOperation, forM_updateEffect, forM_updateEvent, hmodify, hupdate]

/-- **A parent set on a stretch of operations** is set on all of their effects and events. -/
theorem forM_setOnOperation (setOp : OperationObject → OperationObject) (setEffect : StellarEffect → StellarEffect)
    (setEvent : SorobanEvent → SorobanEvent) (ledger : Option StellarBlock)
    (transaction : OperationParts → Option StellarTransaction) :
    ∀ (ops : List OperationParts) (before after : List OperationObject)
      (beforeEffects afterEffects : List StellarEffect) (heap : Heap),
    heap.operations = before ++ operationObjects ledger transaction beforeEffects.length ops ++ after →
    heap.effects = beforeEffects ++ ops.flatMap (effectObjects ledger transaction) ++ afterEffects →
    List.forM (List.range' before.length ops.length) (setOnOperation setOp setEffect setEvent) heap = ((), { heap with
      operations := before ++ (operationObjects ledger transaction beforeEffects.length ops).map setOp ++ after
      effects := beforeEffects ++ (ops.flatMap (effectObjects ledger transaction)).map setEffect ++ afterEffects
      events := updateAll setEvent (ops.flatMap OperationParts.events) heap.events })
  | [], before, after, beforeEffects, afterEffects, heap, hops, heffects => by
    simp only [operationObjects, List.flatMap_nil, List.map_nil] at hops heffects ⊢
    rw [← hops, ← heffects]
    rfl
  | op :: ops, before, after, beforeEffects, afterEffects, heap, hops, heffects => by
    rw [operationObjects_cons, List.append_assoc, List.cons_append] at hops
    rw [List.flatMap_cons, ← List.append_assoc, List.append_assoc _ _ afterEffects] at heffects
    have hhead := setOnOperation_apply setOp setEffect setEvent ledger transaction rfl hops heffects
    have hrest := forM_setOnOperation setOp setEffect setEvent ledger transaction ops
      (before ++ [setOp ⟨op.record, ledger, transaction op,
          List.range' beforeEffects.length op.effects.length, op.events⟩]) after
      (beforeEffects ++ (effectObjects ledger transaction op).map setEffect) afterEffects
    rw [List.length_append, List.length_append, List.length_map, effectObjects, List.length_map, ← effectObjects,
      List.length_singleton] at hrest
    rw [List.length_cons, List.range'_succ, forM_cons_apply, hhead, hrest _ (by simp) (by simp)]
    simp only [operationObjects_cons, List.map_cons, List.flatMap_cons, List.map_append, List.append_assoc,
      List.cons_append, List.nil_append, Cells.updateAll_append]

theorem forM_addOperation (wrappedTx : Ref) : ∀ (ops before after : List OperationObject) (heap : Heap),
    heap.operations = before ++ ops ++ after →
    List.forM (List.range' before.length ops.length) (addOperation wrappedTx) heap = ((), { heap with
      transactions := heap.transactions.modify wrappedTx (fun t => { t with
        effects := t.effects ++ ops.flatMap OperationObject.effects
        events := t.events ++ ops.flatMap OperationObject.events }) })
  | [], before, after, heap, _ => by
    have hid : (fun t : TransactionObject => { t with
        effects := t.effects ++ ([] : List OperationObject).flatMap OperationObject.effects
        events := t.events ++ ([] : List OperationObject).flatMap OperationObject.events }) = id := by
      funext t
      simp
    rw [hid, List.modify_id]
    rfl
  | op :: ops, before, after, heap, hops => by
    have hlists : operationLists before.length heap = ((op.effects, op.events), heap) := by
      simp [operationLists, hops]
    have hhead : addOperation wrappedTx before.length heap = ((), { heap with
        transactions := heap.transactions.modify wrappedTx (fun t => { t with
          effects := t.effects ++ op.effects, events := t.events ++ op.events }) }) := by
      unfold addOperation
      simp only [bind_apply, hlists, updateTransaction]
    have hcompose : (fun t : TransactionObject => { t with
          effects := t.effects ++ (op :: ops).flatMap OperationObject.effects
          events := t.events ++ (op :: ops).flatMap OperationObject.events }) =
        (fun t => { t with
          effects := t.effects ++ ops.flatMap OperationObject.effects
          events := t.events ++ ops.flatMap OperationObject.events }) ∘
        (fun t => { t with effects := t.effects ++ op.effects, events := t.events ++ op.events }) := by
      funext t
      simp
    have hrest := forM_addOperation wrappedTx ops (before ++ [op]) after
    rw [List.length_append, List.length_singleton] at hrest
    rw [List.length_cons, List.range'_succ, forM_cons_apply, hhead, hrest _ (by simp [hops]), hcompose,
      ← List.modify_modify_eq]

def transactionParts (operations : List OperationRecord) (effects : List EffectRecord) (eventsForSequence : List Ref)
    (events : List SorobanEvent) (tx : TransactionRecord) : List OperationParts :=
  let txEvents :=
    Keyed.block (fun item => (events[item]?).map (fun e => e.record.txHash)) (some tx.hash) eventsForSequence
  (Keyed.block OperationRecord.transactionHash tx.hash operations).zipIdx.map (fun (op, index) =>
    partsOf ⟨tx, none, [], [], []⟩ events op (Keyed.block effectKey op.id.text effects)
      (Keyed.block (fun evt => (events[evt]?).map (fun e => e.record.operationIndex)) (some index) txEvents))

def setTransaction (clonedTx : StellarTransaction) (event : SorobanEvent) : SorobanEvent :=
  { event with transaction := some clonedTx }

theorem clonedTx_transactionParts {operations : List OperationRecord} {effects : List EffectRecord}
    {eventsForSequence : List Ref} {events : List SorobanEvent} {tx : TransactionRecord} {op : OperationParts}
    (h : op ∈ transactionParts operations effects eventsForSequence events tx) :
    op.clonedTx = ⟨tx, none, [], [], []⟩ := by
  obtain ⟨x, _, rfl⟩ := List.mem_map.1 h
  rfl

/-- **One transaction wrapped**: its operations and their effects are new in the heap, and refer to a clone of it
without operations. -/
theorem wrapTransaction_apply (operations : List OperationRecord) (effects : List EffectRecord)
    (eventsForSequence : List Ref) (tx : TransactionRecord) (heap : Heap) :
    wrapTransaction operations effects eventsForSequence tx heap = (heap.transactions.length,
      let ops := transactionParts operations effects eventsForSequence heap.events tx
      { events := updateAll (setTransaction ⟨tx, none, [], [], []⟩) (ops.flatMap OperationParts.events) heap.events
        effects := heap.effects ++ ops.flatMap (effectObjects none (fun op => some op.clonedTx))
        operations := heap.operations ++ operationObjects none (fun op => some op.clonedTx) heap.effects.length ops
        transactions := heap.transactions ++ [⟨tx, none, List.range' heap.operations.length ops.length,
          List.range' heap.effects.length (effectCount ops), ops.flatMap OperationParts.events⟩] }) := by
  have hread : ∀ (txs : List TransactionObject) (t : TransactionObject), (txs ++ [t])[txs.length]? = some t := by simp
  have hclone : ∀ op ∈ transactionParts operations effects eventsForSequence heap.events tx,
      op.clonedTx = ⟨tx, none, [], [], []⟩ := fun op h => clonedTx_transactionParts h
  have hwrap := wrapOperationsForTx_apply ⟨tx, none, [], [], []⟩
    (Keyed.block OperationRecord.transactionHash tx.hash operations) (groupOn effectKey effects)
    (Keyed.block (fun item => (heap.events[item]?).map (fun e => e.record.txHash)) (some tx.hash) eventsForSequence)
    { heap with transactions := heap.transactions ++ [⟨tx, none, [], [], []⟩] }
  have hlength : (Keyed.block OperationRecord.transactionHash tx.hash operations).length =
      (transactionParts operations effects eventsForSequence heap.events tx).length := by simp [transactionParts]
  have hparts : (Keyed.block OperationRecord.transactionHash tx.hash operations).zipIdx.map (fun x =>
      partsOf ⟨tx, none, [], [], []⟩ heap.events x.1 (Keyed.block effectKey x.1.id.text effects)
        (Keyed.block (fun evt => (heap.events[evt]?).map (fun e => e.record.operationIndex)) (some x.2)
          (Keyed.block (fun item => (heap.events[item]?).map (fun e => e.record.txHash)) (some tx.hash)
            eventsForSequence))) = transactionParts operations effects eventsForSequence heap.events tx := rfl
  simp only [Keyed.at_groupOn, hlength, hparts] at hwrap
  unfold wrapTransaction
  simp only [bind_apply, get_apply, allocTransaction, cloneTransaction, hread, Option.map_some, Heap.transactionTree,
    Cells.readAll_nil, List.map_nil, Keyed.at_groupOn, hwrap, pure_apply]
  generalize transactionParts operations effects eventsForSequence heap.events tx = ops at hclone
  have hset := forM_setOnOperation (fun op => { op with transaction := some ⟨tx, none, [], [], []⟩ })
    (fun effect => { effect with transaction := some ⟨tx, none, [], [], []⟩ })
    (fun event => { event with transaction := some ⟨tx, none, [], [], []⟩ })
    none (fun _ => none) ops heap.operations [] heap.effects []
  rw [map_operationObjects none (fun op => some op.clonedTx) _ (fun op h _ _ => by rw [hclone op h]),
    map_effectObjects none (fun op => some op.clonedTx) (fun op h _ => by rw [hclone op h])] at hset
  simp only [List.append_nil] at hset
  rw [hset _ rfl rfl]
  simp only [updateTransaction]
  have hadd := forM_addOperation heap.transactions.length
    (operationObjects none (fun op => some op.clonedTx) heap.effects.length ops) heap.operations []
  rw [length_operationObjects, effects_operationObjects, events_operationObjects, List.append_nil] at hadd
  rw [hadd _ rfl]
  simp only [Cells.modify_middle, List.nil_append]
  rfl

structure TransactionParts where
  record : TransactionRecord
  operations : List OperationParts

namespace TransactionParts

def ofRecords (operations : List OperationRecord) (effects : List EffectRecord) (eventsForSequence : List Ref) :
    List SorobanEvent → List TransactionRecord → List TransactionParts × List SorobanEvent
  | events, []        => ([], events)
  | events, tx :: txs =>
    let ops := transactionParts operations effects eventsForSequence events tx
    let (rest, events) := ofRecords operations effects eventsForSequence
      (updateAll (setTransaction ⟨tx, none, [], [], []⟩) (ops.flatMap OperationParts.events) events) txs
    (⟨tx, ops⟩ :: rest, events)

def allOperations (txs : List TransactionParts) : List OperationParts := txs.flatMap TransactionParts.operations

/-- Transactions in the heap, the first one's operations at place `o` and its effects at place `e`. -/
def transactionObjects (ledger : Option StellarBlock) : Nat → Nat → List TransactionParts → List TransactionObject
  | _, _, []        => []
  | o, e, tx :: txs =>
    ⟨tx.record, ledger, List.range' o tx.operations.length, List.range' e (effectCount tx.operations),
        tx.operations.flatMap OperationParts.events⟩ ::
      transactionObjects ledger (o + tx.operations.length) (e + effectCount tx.operations) txs

end TransactionParts

open TransactionParts

theorem transactionObjects_cons (ledger : Option StellarBlock) (o e : Nat) (tx : TransactionParts)
    (txs : List TransactionParts) : transactionObjects ledger o e (tx :: txs) =
      ⟨tx.record, ledger, List.range' o tx.operations.length, List.range' e (effectCount tx.operations),
        tx.operations.flatMap OperationParts.events⟩ ::
      transactionObjects ledger (o + tx.operations.length) (e + effectCount tx.operations) txs := rfl

theorem allOperations_cons (tx : TransactionParts) (txs : List TransactionParts) :
    allOperations (tx :: txs) = tx.operations ++ allOperations txs := List.flatMap_cons

theorem wrapTransactionsForLedger_apply (operations : List OperationRecord) (effects : List EffectRecord)
    (eventsForSequence : List Ref) : ∀ (transactions : List TransactionRecord) (heap : Heap),
    wrapTransactionsForLedger transactions operations effects eventsForSequence heap =
      (List.range' heap.transactions.length transactions.length,
        let (txs, events) := ofRecords operations effects eventsForSequence heap.events transactions
        { events
          effects := heap.effects ++ (allOperations txs).flatMap (effectObjects none (fun op => some op.clonedTx))
          operations := heap.operations ++
            operationObjects none (fun op => some op.clonedTx) heap.effects.length (allOperations txs)
          transactions := heap.transactions ++
            transactionObjects none heap.operations.length heap.effects.length txs })
  | [], heap => by simp [wrapTransactionsForLedger, List.mapM_nil, pure_apply, ofRecords, allOperations,
      operationObjects, transactionObjects]
  | tx :: transactions, heap => by
    have ih := wrapTransactionsForLedger_apply operations effects eventsForSequence transactions
    unfold wrapTransactionsForLedger at ih ⊢
    rw [mapM_cons_apply, wrapTransaction_apply, ih]
    simp only [ofRecords, allOperations_cons, transactionObjects_cons, operationObjects_append, List.flatMap_append,
      List.length_append, length_effectObjects, length_operationObjects, List.length_cons, List.range'_succ,
      List.append_assoc, List.singleton_append, List.length_nil, Nat.zero_add]

theorem mapM_operationEffects : ∀ (ops before after : List OperationObject) (heap : Heap),
    heap.operations = before ++ ops ++ after →
    List.mapM operationEffects (List.range' before.length ops.length) heap = (ops.map OperationObject.effects, heap)
  | [], _, _, _, _ => by simp [List.mapM_nil, pure_apply]
  | op :: ops, before, after, heap, hops => by
    have hlists : operationEffects before.length heap = (op.effects, heap) := by
      simp [operationEffects, operationLists, hops, bind_apply, pure_apply]
    have hrest := mapM_operationEffects ops (before ++ [op]) after heap (by simp [hops])
    rw [List.length_append, List.length_singleton] at hrest
    rw [List.length_cons, List.range'_succ, mapM_cons_apply, hlists, hrest, List.map_cons]

def setLedger (clonedLedger : StellarBlock) (event : SorobanEvent) : SorobanEvent :=
  { event with ledger := some clonedLedger }

theorem foldlM_cons_apply {α β : Type} (f : β → α → Assembly β) (b : β) (a : α) (l : List α) (heap : Heap) :
    List.foldlM f b (a :: l) heap = List.foldlM f (f b a heap).1 l (f b a heap).2 := rfl

theorem addTransaction_apply (clonedLedger : StellarBlock) (transaction : OperationParts → Option StellarTransaction)
    {tx : TransactionParts} {object : TransactionObject} {before after : List TransactionObject}
    {beforeOps afterOps : List OperationObject} {beforeEffects afterEffects : List StellarEffect} (block : BlockObject)
    {heap : Heap}
    (hobject : object = ⟨tx.record, none, List.range' beforeOps.length tx.operations.length,
      List.range' beforeEffects.length (effectCount tx.operations), tx.operations.flatMap OperationParts.events⟩)
    (htxs : heap.transactions = before ++ object :: after)
    (hops : heap.operations =
      beforeOps ++ operationObjects none transaction beforeEffects.length tx.operations ++ afterOps)
    (heffects : heap.effects =
      beforeEffects ++ tx.operations.flatMap (effectObjects none transaction) ++ afterEffects) :
    addTransaction clonedLedger block before.length heap =
      ({ block with
          transactions := block.transactions ++ [before.length]
          operations := block.operations ++ List.range' beforeOps.length tx.operations.length
          effects := block.effects ++ List.range' beforeEffects.length (effectCount tx.operations) },
        { events := updateAll (setLedger clonedLedger) (tx.operations.flatMap OperationParts.events) heap.events
          effects := beforeEffects ++
            tx.operations.flatMap (effectObjects (some clonedLedger) transaction) ++ afterEffects
          operations := beforeOps ++
            operationObjects (some clonedLedger) transaction beforeEffects.length tx.operations ++ afterOps
          transactions := before ++ { object with ledger := some clonedLedger } :: after }) := by
  obtain ⟨events, effects, operations, transactions⟩ := heap
  simp only at htxs hops heffects
  subst htxs hops heffects hobject
  have hset := forM_setOnOperation (fun op => { op with ledger := some clonedLedger })
    (fun effect => { effect with ledger := some clonedLedger })
    (fun event => { event with ledger := some clonedLedger }) none transaction tx.operations beforeOps afterOps
    beforeEffects afterEffects
  rw [map_operationObjects (some clonedLedger) transaction _ (fun _ _ _ _ => rfl),
    map_effectObjects (some clonedLedger) transaction (fun _ _ _ => rfl)] at hset
  have hread := mapM_operationEffects
    (operationObjects (some clonedLedger) transaction beforeEffects.length tx.operations) beforeOps afterOps
  rw [length_operationObjects] at hread
  have hplace : ∀ (t : TransactionObject) (rest : List TransactionObject),
      (before ++ t :: rest)[before.length]? = some t := by simp
  unfold addTransaction
  simp only [bind_apply, updateTransaction, transactionOperations, Cells.modify_middle, hplace, Option.map_some,
    Option.getD_some, pure_apply]
  rw [hset _ rfl rfl, hread _ rfl, ← List.flatMap_def, effects_operationObjects]
  rfl

/-- **All transactions added to the block**: the ledger is set on them and on everything they hold. -/
theorem foldlM_addTransaction (clonedLedger : StellarBlock) (transaction : OperationParts → Option StellarTransaction) :
    ∀ (txs : List TransactionParts) (before : List TransactionObject) (beforeOps : List OperationObject)
      (beforeEffects : List StellarEffect) (block : BlockObject) (heap : Heap),
    heap.transactions = before ++ transactionObjects none beforeOps.length beforeEffects.length txs →
    heap.operations = beforeOps ++ operationObjects none transaction beforeEffects.length (allOperations txs) →
    heap.effects = beforeEffects ++ (allOperations txs).flatMap (effectObjects none transaction) →
    List.foldlM (addTransaction clonedLedger) block (List.range' before.length txs.length) heap =
      ({ block with
          transactions := block.transactions ++ List.range' before.length txs.length
          operations := block.operations ++ List.range' beforeOps.length (allOperations txs).length
          effects := block.effects ++ List.range' beforeEffects.length (effectCount (allOperations txs)) },
        { events := updateAll (setLedger clonedLedger) ((allOperations txs).flatMap OperationParts.events) heap.events
          effects := beforeEffects ++ (allOperations txs).flatMap (effectObjects (some clonedLedger) transaction)
          operations := beforeOps ++
            operationObjects (some clonedLedger) transaction beforeEffects.length (allOperations txs)
          transactions := before ++
            transactionObjects (some clonedLedger) beforeOps.length beforeEffects.length txs })
  | [], before, beforeOps, beforeEffects, block, heap, htxs, hops, heffects => by
    simp only [transactionObjects, allOperations, List.flatMap_nil, operationObjects, List.append_nil]
      at htxs hops heffects
    simp only [transactionObjects, allOperations, List.flatMap_nil, operationObjects, List.append_nil, effectCount,
      List.length_nil, List.range'_zero, List.foldlM_nil, pure_apply, ← htxs, ← hops, ← heffects,
      Cells.updateAll_nil]
  | tx :: txs, before, beforeOps, beforeEffects, block, heap, htxs, hops, heffects => by
    rw [transactionObjects_cons] at htxs
    rw [allOperations_cons, operationObjects_append, ← List.append_assoc] at hops
    rw [allOperations_cons, List.flatMap_append, ← List.append_assoc] at heffects
    have hhead := addTransaction_apply clonedLedger transaction block rfl htxs hops heffects
    have hrest := foldlM_addTransaction clonedLedger transaction txs
      (before ++ [⟨tx.record, some clonedLedger, List.range' beforeOps.length tx.operations.length,
        List.range' beforeEffects.length (effectCount tx.operations), tx.operations.flatMap OperationParts.events⟩])
      (beforeOps ++ operationObjects (some clonedLedger) transaction beforeEffects.length tx.operations)
      (beforeEffects ++ tx.operations.flatMap (effectObjects (some clonedLedger) transaction))
    simp only [List.length_append, List.length_singleton, length_operationObjects, length_effectObjects] at hrest
    rw [List.length_cons, List.range'_succ, foldlM_cons_apply, hhead, hrest _ _ (by simp) rfl rfl]
    have hcount : effectCount (allOperations (tx :: txs)) =
        effectCount tx.operations + effectCount (allOperations txs) := by
      simp [allOperations_cons, effectCount]
    simp only [allOperations_cons, transactionObjects_cons, operationObjects_append, List.flatMap_append,
      List.length_append, Cells.updateAll_append, List.append_assoc, List.singleton_append, ← List.range'_append_1]
    rw [← allOperations_cons, hcount, ← List.range'_append_1]

end Loops

end SubqlStellar
