import SubqlStellar.BatchProgress
/-!
# BatchOrder — the blocks do not depend on how heights are batched

What is fetched for an available ledger in a run of whole pages is fixed by Horizon's lists and by the log the run
begins with (`BatchOk.results`).  So two such runs that fetch the same heights, cut into batches in any two ways and
interleaved in any two ways, fetch the same blocks in the same order (`blocks_batching_independent`).
-/
namespace SubqlStellar

open Runs (run AllSteps)

section Order

variable {Filter : Type} {lists : HorizonLists} {rpc : RpcFilters Filter}

theorem Grows.trans {events events' events'' : EventsSystem Filter} (h : Grows events events')
    (h' : Grows events' events'') : Grows events events'' := by
  refine ⟨Nat.le_trans h.newestLedger h'.newestLedger, Nat.le_trans h.oldestLedger h'.oldestLedger, fun L hL => ?_,
    fun i call hcall => ?_⟩
  · rw [h'.ledgerEvents_eq L (Nat.le_trans hL h.newestLedger), h.ledgerEvents_eq L hL]
  · obtain ⟨call', hcall', hsequence', hsame⟩ := h.calls i call hcall
    obtain ⟨call'', hcall'', hsequence'', hsame'⟩ := h'.calls i call' hcall'
    refine ⟨call'', hcall'', hsequence''.trans hsequence', fun sequence response hresolved => ?_⟩
    have hfirst := hsame sequence response hresolved
    exact (hsame' sequence response (hfirst.trans hresolved)).trans hfirst

theorem grows_batchStep {s s' : BatchSystem Filter} {label : BatchLabel Filter} (h : BatchMoves lists rpc s label s') :
    Grows s.events s'.events := by
  cases h with
  | fetchBlocks => exact Grows.refl s.events
  | task _ _ hmoves => exact hmoves.grows
  | events hmoves => exact grows_of_moves hmoves

theorem grows_of_run {s s' : BatchSystem Filter} {labels : List (BatchLabel Filter)}
    (h : run (batchStep lists rpc) s labels = some s') : Grows s.events s'.events := by
  have hkeep : ∀ t label t', Grows s.events t.events → batchStep lists rpc t label = some t' →
      Grows s.events t'.events :=
    fun _ _ _ hi hs => hi.trans (grows_batchStep (batchMoves_of_step hs))
  exact Runs.run_invariant hkeep (Grows.refl s.events) h

theorem Available.ledgerResult_eq {events events' : EventsSystem Filter} {sequence : Nat}
    (h : Available lists events.log sequence) (hgrows : Grows events events') :
    ledgerResult lists events'.log sequence = ledgerResult lists events.log sequence := by
  obtain ⟨⟨ledger, hledger⟩, hclosed⟩ := h
  have hlater : hasInvokeHostFunctionOp (lists.operations sequence) = true → sequence ≤ events'.log.newestLedger :=
    fun hgate => Nat.le_trans (hclosed hgate) hgrows.newestLedger
  rw [ledgerResult_held hledger hclosed, ledgerResult_held hledger hlater, heldRecords_grows hgrows hclosed]

theorem map_eq_map_of_forall₂ {α β γ : Type} {f : α → γ} {g : β → γ} {as : List α} {bs : List β}
    (h : List.Forall₂ (fun a b => f a = g b) as bs) : as.map f = bs.map g := by
  rw [← List.forall₂_eq_eq_eq, List.forall₂_map_left_iff, List.forall₂_map_right_iff]
  exact h

theorem BatchOk.results {events : EventsSystem Filter} {batch : Batch} (h : BatchOk lists events batch)
    (hconsistent : Consistent events) {blocks : List StellarBlock} (hblocks : batch.outcome = some (.ok blocks)) :
    batch.bufferBlocks.map (ledgerResult lists events.log) = blocks.map Except.ok := by
  refine map_eq_map_of_forall₂ ?_
  rw [← h.sequences, List.forall₂_map_left_iff]
  refine (forall₂_of_map_eq_map (h.outcome.fulfilled blocks hblocks)).imp ?_
  rintro task block ⟨htask, hresult⟩
  exact (h.tasks task htask).result_eq_ok hconsistent hresult

def Resolved (batches : List Batch) (blocks : List StellarBlock) : Prop :=
  ∃ parts : List (List StellarBlock),
    batches.map Batch.outcome = parts.map (fun part => some (.ok part)) ∧ blocks = parts.flatten

/-- **What batches that have resolved hold**, read off the log the run has come to. -/
theorem resolved_results {log : EventLog} {s : BatchSystem Filter} {labels : List (BatchLabel Filter)}
    (h : run (batchStep lists rpc) (BatchSystem.init Filter log) labels = some s)
    (hpages : AllSteps (batchStep lists rpc) BatchWholePages (BatchSystem.init Filter log) labels) :
    ∀ {batches : List Batch} {parts : List (List StellarBlock)}, (∀ batch ∈ batches, batch ∈ s.batches) →
    batches.map Batch.outcome = parts.map (fun part => some (.ok part)) →
    (batches.flatMap Batch.bufferBlocks).map (ledgerResult lists s.events.log) = parts.flatten.map Except.ok
  | [], [], _, _ => rfl
  | [], _ :: _, _, hparts => by cases hparts
  | _ :: _, [], _, hparts => by cases hparts
  | batch :: batches, part :: parts, hmem, hparts => by
    obtain ⟨hpart, hparts⟩ := List.cons.inj hparts
    have hresults := ((batchesOk_of_run h).batches batch (hmem batch List.mem_cons_self)).results
      (consistent_of_batchRun h hpages) hpart
    rw [List.flatMap_cons, List.map_append, List.flatten_cons, List.map_append, hresults,
      resolved_results h hpages (fun b hb => hmem b (List.mem_cons_of_mem batch hb)) hparts]

theorem resolved_available {log : EventLog} {s : BatchSystem Filter} {labels : List (BatchLabel Filter)}
    (h : run (batchStep lists rpc) (BatchSystem.init Filter log) labels = some s)
    (hpages : AllSteps (batchStep lists rpc) BatchWholePages (BatchSystem.init Filter log) labels)
    {batches : List Batch} (hmem : ∀ batch ∈ batches, batch ∈ s.batches)
    (havailable : ∀ sequence ∈ batches.flatMap Batch.bufferBlocks, Available lists log sequence)
    {blocks : List StellarBlock} (hblocks : Resolved batches blocks) :
    (batches.flatMap Batch.bufferBlocks).map (ledgerResult lists log) = blocks.map Except.ok := by
  obtain ⟨parts, hparts, rfl⟩ := hblocks
  rw [← resolved_results h hpages hmem hparts]
  refine List.map_congr_left (fun sequence hsequence => ?_)
  exact (Available.ledgerResult_eq (havailable sequence hsequence) (grows_of_run h)).symm

/-- **Two runs of whole pages that fetch the same available heights fetch the same blocks, in the same order**, whatever
the batches the heights are cut into, the page limits, and how everything interleaves. -/
theorem blocks_batching_independent {log : EventLog} {s s' : BatchSystem Filter}
    {labels labels' : List (BatchLabel Filter)}
    (h : run (batchStep lists rpc) (BatchSystem.init Filter log) labels = some s)
    (h' : run (batchStep lists rpc) (BatchSystem.init Filter log) labels' = some s')
    (hpages : AllSteps (batchStep lists rpc) BatchWholePages (BatchSystem.init Filter log) labels)
    (hpages' : AllSteps (batchStep lists rpc) BatchWholePages (BatchSystem.init Filter log) labels')
    {batches batches' : List Batch} (hmem : ∀ batch ∈ batches, batch ∈ s.batches)
    (hmem' : ∀ batch ∈ batches', batch ∈ s'.batches)
    (hheights : batches.flatMap Batch.bufferBlocks = batches'.flatMap Batch.bufferBlocks)
    (havailable : ∀ sequence ∈ batches.flatMap Batch.bufferBlocks, Available lists log sequence)
    {blocks blocks' : List StellarBlock} (hblocks : Resolved batches blocks) (hblocks' : Resolved batches' blocks') :
    blocks = blocks' := by
  have hresults := resolved_available h hpages hmem havailable hblocks
  have hresults' := resolved_available h' hpages' hmem' (hheights ▸ havailable) hblocks'
  rw [hheights] at hresults
  exact List.map_injective_iff.2 (fun _ _ hok => Except.ok.inj hok) (hresults.symm.trans hresults')

end Order

/-! ## Two runs -/

def eventsLabels : List (BatchLabel Unit) :=
  [.events (.page 0 sampleLimit), .events (.page 1 sampleLimit), .events (.page 0 sampleLimit), .events (.finish 0),
    .events (.page 1 sampleLimit), .events (.finish 1)]

def oneBatchLabels : List (BatchLabel Unit) :=
  [.fetchBlocks sampleLimit [7, 7]] ++ horizonLabels 0 0 ++ horizonLabels 0 1 ++ eventsLabels ++
    [.task 0 1 .resume, .task 0 0 .resume]

/-- The same heights in two batches, the second one first to call the Soroban server. -/
def twoBatchLabels : List (BatchLabel Unit) :=
  [.fetchBlocks sampleLimit [7], .fetchBlocks oneRecord [7]] ++ horizonLabels 1 0 ++ horizonLabels 0 0 ++
    eventsLabels ++ [.task 0 0 .resume, .task 1 0 .resume]

theorem batchPages_twoBatches : AllSteps (batchStep invokingLists unfiltered) BatchWholePages
    (BatchSystem.init Unit invokingLog) twoBatchLabels := by decide +kernel

theorem blocks_batching_independent_twice : ∃ blocks, Resolved (batchRun invokingLists oneBatchLabels).batches blocks ∧
    ∀ blocks', Resolved (batchRun invokingLists twoBatchLabels).batches blocks' → blocks = blocks' := by
  have hone : run (batchStep invokingLists unfiltered) (BatchSystem.init Unit invokingLog) oneBatchLabels =
      some (batchRun invokingLists oneBatchLabels) := rfl
  have htwo : run (batchStep invokingLists unfiltered) (BatchSystem.init Unit invokingLog) twoBatchLabels =
      some (batchRun invokingLists twoBatchLabels) := rfl
  have honePages : AllSteps (batchStep invokingLists unfiltered) BatchWholePages (BatchSystem.init Unit invokingLog)
      oneBatchLabels := by decide +kernel
  have havailable : ∀ sequence ∈ (batchRun invokingLists oneBatchLabels).batches.flatMap Batch.bufferBlocks,
      Available invokingLists invokingLog sequence := by
    have hheights : (batchRun invokingLists oneBatchLabels).batches.flatMap Batch.bufferBlocks = [7, 7] := rfl
    intro sequence hsequence
    rw [hheights] at hsequence
    obtain rfl : sequence = 7 := by simpa using hsequence
    exact ⟨⟨_, rfl⟩, fun _ => Nat.le_refl 7⟩
  have hblocks : Resolved (batchRun invokingLists oneBatchLabels).batches
      [invokingRecords.block, invokingRecords.block] := ⟨[[invokingRecords.block, invokingRecords.block]], rfl, rfl⟩
  exact ⟨_, hblocks, fun blocks' hblocks' => blocks_batching_independent hone htwo honePages batchPages_twoBatches
    (fun _ h => h) (fun _ h => h) rfl havailable hblocks hblocks'⟩

end SubqlStellar
