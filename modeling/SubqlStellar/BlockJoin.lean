import Mathlib.Data.List.Perm.Basic
import SubqlStellar.BlockPaging
import SubqlStellar.BlockReferences
/-!
# BlockJoin — the block as a join of the fetched lists

Three joins make a block: operations with transactions by hash, effects with operations by the number before the `-` of
an effect's id, events with operations by hash and place.  On lists ordered as Horizon orders them (`WellOrdered`) they
lose nothing, add nothing and keep the order (`block_joined`).
-/
namespace SubqlStellar

open Keyed (block GroupedBy)

def OperationId.value (id : OperationId) : Nat := Nat.ofDigitChars 10 id.text.toList 0

def OperationId.Canonical (id : OperationId) : Prop := Nat.repr id.value = id.text
deriving Decidable

/-- The number before the `-` of an effect's id. -/
def effectOperation (effect : EffectRecord) : Nat := Nat.ofDigitChars 10 (idPrefix effect.id.text) 0

theorem repr_injective {m n : Nat} (h : Nat.repr m = Nat.repr n) : m = n := by
  have hdigits : Nat.toDigits 10 m = Nat.toDigits 10 n := by
    rw [← Nat.toList_repr, ← Nat.toList_repr, h]
  rw [← Nat.ofDigitChars_toDigits (by decide : 1 < 10) (by decide : 10 ≤ 10) (n := m), hdigits,
    Nat.ofDigitChars_toDigits (by decide) (by decide)]

/-- **An effect is filed under an operation exactly where its number is the operation's.** -/
theorem block_effectKey {id : OperationId} (h : id.Canonical) (effects : List EffectRecord) :
    block effectKey id.text effects = block effectOperation id.value effects := by
  unfold block
  apply List.filter_congr
  intro effect _
  have hkey : effectKey effect = Nat.repr (effectOperation effect) := rfl
  rw [hkey, ← h]
  by_cases hv : effectOperation effect = id.value
  · simp [hv]
  · have hne : Nat.repr (effectOperation effect) ≠ Nat.repr id.value := fun he => hv (repr_injective he)
    simp [hv, hne]

/-- The lists of a ledger, in the order of its transactions and of their operations. -/
structure WellOrdered (records : LedgerRecords) : Prop where
  hashes : (records.transactions.map TransactionRecord.hash).Nodup
  ids : (records.operations.map OperationRecord.id).Nodup
  canonical : ∀ op ∈ records.operations, op.id.Canonical
  operations : GroupedBy OperationRecord.transactionHash (records.transactions.map TransactionRecord.hash)
    records.operations
  effects : GroupedBy effectOperation (records.operations.map (fun op => op.id.value)) records.effects
  events : ∀ event ∈ records.events, NamesOperation records event

structure Joined (records : LedgerRecords) (block : StellarBlock) : Prop where
  transactions : block.transactions.map StellarTransaction.record = records.transactions
  operations : block.operations.map StellarOperation.record = records.operations
  effects : block.effects.map StellarEffect.record = records.effects
  events : block.events.map SorobanEvent.record = records.events
  txOperations : ∀ tx ∈ block.transactions, tx.operations.map StellarOperation.record =
    records.operations.filter (fun op => decide (op.transactionHash = tx.record.hash))
  opEffects : ∀ tx ∈ block.transactions, ∀ op ∈ tx.operations, op.effects.map StellarEffect.record =
    records.effects.filter (fun effect => decide (effectOperation effect = op.record.id.value))
  opEvents : ∀ tx ∈ block.transactions, ∀ i op, tx.operations[i]? = some op → op.events.map SorobanEvent.record =
    records.events.filter (fun event => decide (event.txHash = tx.record.hash ∧ event.operationIndex = i))
  txEffects : ∀ tx ∈ block.transactions, tx.effects = tx.operations.flatMap StellarOperation.effects
  txEvents : ∀ tx ∈ block.transactions, tx.events = tx.operations.flatMap StellarOperation.events
  blockOperations : block.operations = block.transactions.flatMap StellarTransaction.operations
  blockEffects : block.effects = block.operations.flatMap StellarOperation.effects
  oneTransaction : ∀ op ∈ records.operations,
    ∃! i : Nat, ∃ tx, block.transactions[i]? = some tx ∧ op ∈ tx.operations.map StellarOperation.record
  oneOperation : ∀ effect ∈ records.effects,
    ∃! i : Nat, ∃ op, block.operations[i]? = some op ∧ effect ∈ op.effects.map StellarEffect.record
  oneEventOperation : ∀ event ∈ records.events,
    ∃! i : Nat, ∃ op, block.operations[i]? = some op ∧ event ∈ op.events.map SorobanEvent.record
  allEvents : ((block.operations.flatMap StellarOperation.events).map SorobanEvent.record).Perm records.events

section Join

variable {records : LedgerRecords} {block : StellarBlock}

theorem Holds.map_record_allOperations (h : Holds records block) :
    block.operations.map StellarOperation.record = (records.transactions.map TransactionRecord.hash).flatMap
      (fun hash => Keyed.block OperationRecord.transactionHash hash records.operations) := by
  rw [h.operations, ← h.transactions, List.map_flatMap, List.flatMap_map, List.flatMap_map]
  exact List.flatMap_congr (fun tx htx => h.txOperations tx htx)

theorem Holds.exists_tx (h : Holds records block) {op : StellarOperation} (hop : op ∈ block.operations) :
    ∃ tx ∈ block.transactions, op ∈ tx.operations := by
  rw [h.operations] at hop
  exact List.mem_flatMap.1 hop

theorem Holds.map_record_allEffects (h : Holds records block) :
    block.effects.map StellarEffect.record = (block.operations.map StellarOperation.record).flatMap
      (fun op => Keyed.block effectKey op.id.text records.effects) := by
  rw [h.effects, List.map_flatMap, List.flatMap_map]
  refine List.flatMap_congr (fun op hop => ?_)
  obtain ⟨tx, htx, hop⟩ := h.exists_tx hop
  exact h.opEffects tx htx op hop

theorem Holds.txEvents_perm (h : Holds records block) {tx : StellarTransaction} (htx : tx ∈ block.transactions) :
    (tx.events.map SorobanEvent.record).Perm
      ((Keyed.block SorobanRpcEventResponse.txHash tx.record.hash records.events).filter
        (fun event => decide (event.operationIndex < tx.operations.length))) := by
  have hplaces : tx.events.map SorobanEvent.record = (List.range' 0 tx.operations.length).flatMap
      (fun i => operationEvents records.events tx.record.hash i) := by
    rw [h.txEvents tx htx, List.map_flatMap]
    refine Keyed.flatMap_range' 0 (fun i op hop => ?_)
    rw [h.opEvents tx htx i op hop, Nat.zero_add]
  rw [hplaces]
  unfold operationEvents
  have hperm := Keyed.flatMap_block_perm SorobanRpcEventResponse.operationIndex
    (Keyed.block SorobanRpcEventResponse.txHash tx.record.hash records.events)
    (List.nodup_range' (s := 0) (n := tx.operations.length))
  simpa only [List.mem_range'_1, Nat.zero_le, true_and, Nat.zero_add] using hperm

/-- The event's index is that of an operation with its hash. -/
def HasPlace (records : LedgerRecords) (event : SorobanRpcEventResponse) : Prop :=
  event.operationIndex < (Keyed.block OperationRecord.transactionHash event.txHash records.operations).length
deriving Decidable

theorem namesOperation_iff_hasPlace {event : SorobanRpcEventResponse} : NamesOperation records event ↔
    event.txHash ∈ records.transactions.map TransactionRecord.hash ∧ HasPlace records event := by
  unfold NamesOperation HasPlace
  rw [List.mem_map]
  constructor
  · rintro ⟨tx, htx, hhash, hplace⟩
    rw [hhash] at hplace
    exact ⟨⟨tx, htx, hhash⟩, hplace⟩
  · rintro ⟨⟨tx, htx, hhash⟩, hplace⟩
    rw [← hhash] at hplace
    exact ⟨tx, htx, hhash, hplace⟩

instance (records : LedgerRecords) : DecidablePred (NamesOperation records) := fun event =>
  inferInstanceAs (Decidable (∃ tx ∈ records.transactions, tx.hash = event.txHash ∧
    event.operationIndex < (Keyed.block OperationRecord.transactionHash tx.hash records.operations).length))

/-- **The operations' events, transaction by transaction**: those of its hash that have a place. -/
theorem Holds.events_perm_blocks (h : Holds records block) :
    ((block.operations.flatMap StellarOperation.events).map SorobanEvent.record).Perm
      ((records.transactions.map TransactionRecord.hash).flatMap (fun hash =>
        Keyed.block SorobanRpcEventResponse.txHash hash
          (records.events.filter (fun event => decide (HasPlace records event))))) := by
  have hops : block.operations.flatMap StellarOperation.events =
      block.transactions.flatMap StellarTransaction.events := by
    rw [h.operations, List.flatMap_assoc]
    exact List.flatMap_congr (fun tx htx => (h.txEvents tx htx).symm)
  have hplaced : ∀ tx ∈ block.transactions,
      (Keyed.block SorobanRpcEventResponse.txHash tx.record.hash records.events).filter
        (fun event => decide (event.operationIndex < tx.operations.length)) =
      Keyed.block SorobanRpcEventResponse.txHash tx.record.hash
        (records.events.filter (fun event => decide (HasPlace records event))) := by
    intro tx htx
    refine Keyed.filter_block _ (fun event hhash => ?_) _
    rw [decide_eq_decide, h.length_operations htx, ← hhash]
    rfl
  rw [hops, List.map_flatMap, ← h.transactions, List.map_map, List.flatMap_map]
  refine (List.Perm.flatMap_left _ (fun tx htx => h.txEvents_perm htx)).trans ?_
  rw [List.flatMap_congr hplaced]
  rfl

/-- **The operations' events are the fetched events that name an operation**, each once, where no two transactions have
the same hash. -/
theorem Holds.events_perm (h : Holds records block) (hnd : (records.transactions.map TransactionRecord.hash).Nodup) :
    ((block.operations.flatMap StellarOperation.events).map SorobanEvent.record).Perm
      (records.events.filter (fun event => decide (NamesOperation records event))) := by
  refine h.events_perm_blocks.trans ((Keyed.flatMap_block_perm _ _ hnd).trans (List.Perm.of_eq ?_))
  rw [List.filter_filter]
  refine List.filter_congr (fun event _ => ?_)
  rw [← Bool.decide_and, decide_eq_decide, namesOperation_iff_hasPlace]

/-- **An event with a place is under as many operations as transactions have its hash.** -/
theorem Holds.count_events (h : Holds records block) {event : SorobanRpcEventResponse}
    (hplace : HasPlace records event) :
    ((block.operations.flatMap StellarOperation.events).map SorobanEvent.record).count event =
      (records.transactions.map TransactionRecord.hash).count event.txHash * records.events.count event := by
  rw [h.events_perm_blocks.count_eq, Keyed.count_flatMap_block, List.count_filter (by simpa using hplace)]

theorem OperationId.eq_of_text : ∀ {id id' : OperationId}, id.text = id'.text → id = id'
  | ⟨_, _⟩, ⟨_, _⟩, rfl => rfl

theorem WellOrdered.values (hw : WellOrdered records) :
    (records.operations.map (fun op => op.id.value)).Nodup := by
  have hmap : records.operations.map (fun op => op.id.value) =
      (records.operations.map OperationRecord.id).map OperationId.value := by
    rw [List.map_map]
    rfl
  rw [hmap]
  refine hw.ids.map_on (fun id hid id' hid' hvalue => ?_)
  obtain ⟨op, hop, rfl⟩ := List.mem_map.1 hid
  obtain ⟨op', hop', rfl⟩ := List.mem_map.1 hid'
  apply OperationId.eq_of_text
  rw [← hw.canonical op hop, ← hw.canonical op' hop', hvalue]

theorem Holds.record_of_event (h : Holds records block) {op : StellarOperation} (hop : op ∈ block.operations)
    {event : SorobanRpcEventResponse} (hevent : event ∈ op.events.map SorobanEvent.record) :
    (Keyed.block OperationRecord.transactionHash event.txHash records.operations)[event.operationIndex]? =
      some op.record := by
  obtain ⟨tx, htx, hop⟩ := h.exists_tx hop
  obtain ⟨i, hi⟩ := List.getElem?_of_mem hop
  rw [h.opEvents tx htx i op hi, mem_operationEvents] at hevent
  obtain ⟨-, hhash, hindex⟩ := hevent
  rw [hhash, hindex, ← h.txOperations tx htx, List.getElem?_map, hi]
  rfl

section Orders

variable (h : Holds records block) (hw : WellOrdered records)

include h hw

theorem WellOrdered.map_record_operations : block.operations.map StellarOperation.record = records.operations := by
  rw [h.map_record_allOperations]
  exact Keyed.flatMap_block OperationRecord.transactionHash hw.hashes hw.operations

theorem WellOrdered.record_mem {op : StellarOperation} (hop : op ∈ block.operations) :
    op.record ∈ records.operations := by
  rw [← hw.map_record_operations h]
  exact List.mem_map_of_mem hop

theorem WellOrdered.map_record_effects : block.effects.map StellarEffect.record = records.effects := by
  have hblocks : ∀ op ∈ records.operations, Keyed.block effectKey op.id.text records.effects =
      Keyed.block effectOperation op.id.value records.effects :=
    fun op hop => block_effectKey (hw.canonical op hop) records.effects
  rw [h.map_record_allEffects, hw.map_record_operations h, List.flatMap_congr hblocks]
  have hjoin := Keyed.flatMap_block effectOperation hw.values hw.effects
  rwa [List.flatMap_map] at hjoin

theorem WellOrdered.oneTransaction {op : OperationRecord} (hop : op ∈ records.operations) :
    ∃! i : Nat, ∃ tx, block.transactions[i]? = some tx ∧ op ∈ tx.operations.map StellarOperation.record := by
  have hhashes : (block.transactions.map (fun tx => tx.record.hash)).Nodup := by
    have hmap := hw.hashes
    rwa [← h.transactions, List.map_map] at hmap
  refine Keyed.existsUnique_index (fun tx => tx.record.hash) (k := op.transactionHash) hhashes ?_ ?_
  · rw [← hw.map_record_operations h] at hop
    obtain ⟨op', hall, rfl⟩ := List.mem_map.1 hop
    obtain ⟨tx, htx, hop⟩ := h.exists_tx hall
    exact ⟨tx, htx, List.mem_map_of_mem hop⟩
  · intro tx htx hop
    rw [h.txOperations tx htx] at hop
    exact ((Keyed.mem_block _).1 hop).2.symm

theorem WellOrdered.operationIds : (block.operations.map (fun op => op.record.id)).Nodup := by
  have hids := hw.ids
  rwa [← hw.map_record_operations h, List.map_map] at hids

theorem WellOrdered.oneOperation {effect : EffectRecord} (heffect : effect ∈ records.effects) :
    ∃! i : Nat, ∃ op, block.operations[i]? = some op ∧ effect ∈ op.effects.map StellarEffect.record := by
  have hkey : ∀ op ∈ block.operations, effect ∈ op.effects.map StellarEffect.record →
      op.record.id.text = effectKey effect := by
    intro op hop heffect
    obtain ⟨tx, htx, hop⟩ := h.exists_tx hop
    rw [h.opEffects tx htx op hop] at heffect
    exact ((Keyed.mem_block _).1 heffect).2.symm
  rw [← hw.map_record_effects h, h.effects, List.map_flatMap] at heffect
  obtain ⟨op, hop, heffect⟩ := List.mem_flatMap.1 heffect
  refine Keyed.existsUnique_index (fun op => op.record.id) (k := op.record.id) (hw.operationIds h) ⟨op, hop, heffect⟩ ?_
  intro op' hop' heffect'
  apply OperationId.eq_of_text
  rw [hkey op' hop' heffect', hkey op hop heffect]

theorem WellOrdered.allEvents :
    ((block.operations.flatMap StellarOperation.events).map SorobanEvent.record).Perm records.events := by
  refine (h.events_perm hw.hashes).trans (List.Perm.of_eq ?_)
  rw [List.filter_eq_self]
  exact fun event hevent => decide_eq_true (hw.events event hevent)

theorem WellOrdered.oneEventOperation {event : SorobanRpcEventResponse} (hevent : event ∈ records.events) :
    ∃! i : Nat, ∃ op, block.operations[i]? = some op ∧ event ∈ op.events.map SorobanEvent.record := by
  rw [← (hw.allEvents h).mem_iff, List.map_flatMap] at hevent
  obtain ⟨op, hop, hevent⟩ := List.mem_flatMap.1 hevent
  refine Keyed.existsUnique_index (fun op => op.record.id) (k := op.record.id) (hw.operationIds h) ⟨op, hop, hevent⟩ ?_
  intro op' hop' hevent'
  have hsame := (h.record_of_event hop' hevent').symm.trans (h.record_of_event hop hevent)
  rw [Option.some.inj hsame]

/-- **On well-ordered lists the three joins are exact.** -/
theorem WellOrdered.joined : Joined records block where
  transactions := h.transactions
  operations := hw.map_record_operations h
  effects := hw.map_record_effects h
  events := h.events
  txOperations := h.txOperations
  opEffects tx htx op hop := by
    have hall : op ∈ block.operations := by
      rw [h.operations]
      exact List.mem_flatMap.2 ⟨tx, htx, hop⟩
    rw [h.opEffects tx htx op hop, block_effectKey (hw.canonical _ (hw.record_mem h hall))]
    rfl
  opEvents tx htx i op hop := by
    rw [h.opEvents tx htx i op hop]
    unfold operationEvents Keyed.block
    rw [List.filter_filter]
    apply List.filter_congr
    intro event _
    rw [Bool.decide_and, Bool.and_comm]
  txEffects := h.txEffects
  txEvents := h.txEvents
  blockOperations := h.operations
  blockEffects := h.effects
  oneTransaction _ hop := hw.oneTransaction h hop
  oneOperation _ heffect := hw.oneOperation h heffect
  oneEventOperation _ hevent := hw.oneEventOperation h hevent
  allEvents := hw.allEvents h

end Orders

end Join

/-- **Block assembly is an exact, order-preserving join** of well-ordered lists. -/
theorem block_joined {Filter : Type} {api : StellarApi Filter} {fuel sequence : Nat}
    {eventsCache eventsCache' : EventsCache} {records : LedgerRecords}
    (hfetches : Fetches api fuel sequence eventsCache records eventsCache') (hw : WellOrdered records) :
    ∃ block, fetchAndWrapLedger api fuel sequence eventsCache = some (.ok block, eventsCache') ∧
      Joined records block :=
  ⟨records.block, fetchAndWrapLedger_eq_ok.2 ⟨records, hfetches, rfl⟩, hw.joined (holds_block records)⟩

theorem block_joined_invoking : ∃ block eventsCache,
    fetchAndWrapLedger (pagedApi invokingLists invokingLog unfiltered (evenCuts 1) 10) 5 7 ∅ =
      some (.ok block, eventsCache) ∧ Joined invokingRecords block := by
  obtain ⟨eventsCache, hfetches⟩ : ∃ eventsCache,
      Fetches (pagedApi invokingLists invokingLog unfiltered (evenCuts 1) 10) 5 7 ∅ invokingRecords eventsCache :=
    fetches_paged rfl (by decide) (by decide)
  have hw : WellOrdered invokingRecords := {
    hashes := by decide
    ids := by decide
    canonical := by decide
    operations := ⟨by decide, by decide⟩
    effects := ⟨by decide, by decide⟩
    events := by decide }
  obtain ⟨block, hblock, hjoined⟩ := block_joined hfetches hw
  exact ⟨block, eventsCache, hblock, hjoined⟩

end SubqlStellar
