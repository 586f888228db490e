import SubqlStellar.DictionaryBlocks
import SubqlStellar.SafeApi
/-!
# Pipeline — batches of blocks, indexed, against ledgers indexed one by one

The plain indexer goes through its ledgers one by one: it fetches a ledger on one api, whose events cache it keeps from
ledger to ledger, and indexes it, up to the first error (`indexLedgers`).  Batches of blocks that were fetched together
in a run of whole pages, interleaved in any way, and are then indexed in the order of their heights do the same
(`pipeline_sequential`): what the handlers are given, what they make of their state, and the error that ends them.
Where a dictionary selects the heights that are fetched, they do what the plain indexer does on all heights
(`dictionary_pipeline`).
-/
namespace SubqlStellar

open Runs (run AllSteps)

section Sequential

variable {Filter Ds σ : Type} (api : StellarApi Filter) (fuel : Nat)
  (indexData : HandlerInput → Ds → ExceptT JsError (StateM σ) PUnit) (dataSources : List Ds)

def indexLedgers : List Nat → EventsCache → σ → Option (Except JsError Unit × σ)
  | [], _, state => some (.ok (), state)
  | sequence :: heights, eventsCache, state =>
    match fetchAndWrapLedger api fuel sequence eventsCache with
    | none => none
    | some (.error e, _) => some (.error e, state)
    | some (.ok block, eventsCache) =>
      match indexBlockData indexData block.wrapped dataSources state with
      | (.error e, state) => some (.error e, state)
      | (.ok _, state)    => indexLedgers heights eventsCache state

def indexBlocks (blocks : List StellarBlock) : ExceptT JsError (StateM σ) PUnit :=
  forM blocks (fun block => indexBlockData indexData block.wrapped dataSources)

end Sequential

section Whole

variable {Filter : Type} {lists : HorizonLists} {log : EventLog} {rpc : RpcFilters Filter} {cuts : PageCuts Filter}
  {pageLimit : ℕ+} {sequence fuel : Nat} {eventsCache : EventsCache}

/-- The server fills its pages of events up to the limit of their requests. -/
def FillsPages (cuts : PageCuts Filter) : Prop :=
  ∀ (request : GetEventsRequest Filter) (pageLimit : ℕ+), request.limit = some (pageLimit : Nat) →
    cuts.events request = pageLimit

theorem holdsLedgers_empty (log : EventLog) : HoldsLedgers log ∅ := by
  intro ledger entry hentry
  rw [AList.lookup_empty] at hentry
  cases hentry

theorem configuredPageLimit_pos (pageLimit : ℕ+) : configuredPageLimit (some (pageLimit : Nat)) = pageLimit := by
  obtain ⟨n, hn⟩ := Nat.exists_eq_succ_of_ne_zero pageLimit.ne_zero
  rw [hn]
  rfl

theorem getAndWrapEvents_holds (hfills : FillsPages cuts) (hfuel : log.events.length < fuel)
    (hL : sequence ≤ log.newestLedger) (hcache : HoldsLedgers log eventsCache) :
    ∃ eventsCache', getAndWrapEvents (pagedApi lists log rpc cuts pageLimit) fuel sequence eventsCache =
        some (.ok (ledgerEvents sequence log.events), eventsCache') ∧ HoldsLedgers log eventsCache' := by
  rw [getAndWrapEvents_apply rfl]
  cases hentry : AList.lookup sequence eventsCache with
  | some entry =>
    rw [getEvents_hit hentry fuel rfl, ← (hcache sequence entry hentry).2]
    exact ⟨_, rfl, Keyed.Table.forall_lookup_erase hcache sequence⟩
  | none =>
    have hlimit : configuredPageLimit (some (pageLimit : Nat)) = pageLimit := configuredPageLimit_pos pageLimit
    have hpos : ∀ request : GetEventsRequest Filter, request.limit = some (configuredPageLimit (some pageLimit)) →
        0 < (cuts.events request : Nat) := fun request _ => (cuts.events request).2
    have hn : (ledgerEvents sequence (log.view rpc [])).length < fuel := by
      rw [view_nil]
      exact Nat.lt_of_le_of_lt (List.length_filter_le _ _) hfuel
    obtain ⟨eventsToCache, -, hget, hto, hwhole⟩ := getEvents_miss hpos hL hentry hn
    rw [view_nil] at hget hwhole
    refine ⟨_, congrArg (Option.map _) hget,
      cache_update hcache (hwhole fun request hrequest => ?_) (fun event he => ?_)⟩
    · rw [hlimit] at hrequest ⊢
      rw [hfills request pageLimit hrequest]
    · rw [← view_nil log rpc]
      exact hto.later event he

theorem eventsForSequence_holds (hfills : FillsPages cuts) (hfuel : log.events.length < fuel)
    {operations : List OperationRecord}
    (hheld : hasInvokeHostFunctionOp operations = true → sequence ≤ log.newestLedger)
    (hcache : HoldsLedgers log eventsCache) :
    ∃ events eventsCache', eventsForSequence (pagedApi lists log rpc cuts pageLimit) fuel sequence operations
        eventsCache = some (.ok events, eventsCache') ∧ HoldsLedgers log eventsCache' := by
  by_cases hgate : hasInvokeHostFunctionOp operations = true
  · obtain ⟨eventsCache', hevents, hholds⟩ : ∃ eventsCache', getAndWrapEvents (pagedApi lists log rpc cuts pageLimit)
        fuel sequence eventsCache = some (.ok (ledgerEvents sequence log.events), eventsCache') ∧
          HoldsLedgers log eventsCache' := getAndWrapEvents_holds hfills hfuel (hheld hgate) hcache
    refine ⟨ledgerEvents sequence log.events, eventsCache', eventsForSequence_eq_ok.2 ?_, hholds⟩
    rw [if_pos hgate]
    exact hevents
  · refine ⟨[], eventsCache, eventsForSequence_eq_ok.2 ?_, hcache⟩
    rw [if_neg hgate]
    exact ⟨rfl, rfl⟩

/-- **A ledger fetched with whole ledgers in the cache** is what a fetch from an empty cache makes of it, and leaves
whole ledgers in the cache. -/
theorem fetchAndWrapLedger_holds (hfills : FillsPages cuts) (hfuel : pagesOf lists log sequence < fuel)
    (hcache : HoldsLedgers log eventsCache) {block : StellarBlock}
    (hblock : ledgerResult lists log sequence = .ok block) :
    ∃ eventsCache', fetchAndWrapLedger (pagedApi lists log rpc cuts pageLimit) fuel sequence eventsCache =
        some (.ok block, eventsCache') ∧ HoldsLedgers log eventsCache' := by
  obtain ⟨ledger, hledger, hheld, rfl⟩ := ledgerResult_eq_ok hblock
  obtain ⟨eventsCache', hfetches⟩ : ∃ eventsCache', Fetches (pagedApi lists log rpc cuts pageLimit) fuel sequence
      eventsCache (heldRecords lists log ledger sequence) eventsCache' :=
    fetches_held hledger hfuel hheld (fun entry hentry => (hcache sequence entry hentry).2)
  refine ⟨eventsCache', fetchAndWrapLedger_eq_ok.2 ⟨_, hfetches, rfl⟩, ?_⟩
  -- the same events call, for what it leaves in the cache
  have hevents := eventsForSequence_eq_ok.2 hfetches.events
  have hfuel' : log.events.length < fuel := Nat.lt_of_le_of_lt (Nat.le_add_left _ _) hfuel
  obtain ⟨events, eventsCache'', hcall, hholds⟩ : ∃ events eventsCache'', eventsForSequence
      (pagedApi lists log rpc cuts pageLimit) fuel sequence (lists.operations sequence) eventsCache =
        some (.ok events, eventsCache'') ∧ HoldsLedgers log eventsCache'' :=
    eventsForSequence_holds hfills hfuel' hheld hcache
  cases hevents.symm.trans hcall
  exact hholds

end Whole

section Pipeline

variable {Filter Ds σ : Type} {lists : HorizonLists} {rpc : RpcFilters Filter} {cuts : PageCuts Filter}
  {pageLimit : ℕ+} {fuel : Nat} (indexData : HandlerInput → Ds → ExceptT JsError (StateM σ) PUnit)
  (dataSources : List Ds)

/-- **The plain indexer indexes the ledgers' blocks**, up to the first error. -/
theorem indexLedgers_eq {log : EventLog} (hfills : FillsPages cuts) : ∀ {heights : List Nat}
    {blocks : List StellarBlock} {eventsCache : EventsCache} (state : σ),
    (∀ sequence ∈ heights, pagesOf lists log sequence < fuel) → HoldsLedgers log eventsCache →
    heights.map (ledgerResult lists log) = blocks.map Except.ok →
    indexLedgers (pagedApi lists log rpc cuts pageLimit) fuel indexData dataSources heights eventsCache state =
      some (indexBlocks indexData dataSources blocks state)
  | [], [], _, _, _, _, _ => rfl
  | [], _ :: _, _, _, _, _, h => by cases h
  | _ :: _, [], _, _, _, _, h => by cases h
  | sequence :: heights, block :: blocks, eventsCache, state, hfuel, hcache, h => by
    obtain ⟨hblock, hblocks⟩ := List.cons.inj h
    obtain ⟨eventsCache', hfetch, hcache'⟩ : ∃ eventsCache', fetchAndWrapLedger
        (pagedApi lists log rpc cuts pageLimit) fuel sequence eventsCache = some (.ok block, eventsCache') ∧
          HoldsLedgers log eventsCache' :=
      fetchAndWrapLedger_holds hfills (hfuel sequence List.mem_cons_self) hcache hblock
    unfold indexLedgers indexBlocks
    rw [hfetch, Loops.forM_cons_apply]
    simp only
    cases hindexed : indexBlockData indexData block.wrapped dataSources state with
    | mk result state' =>
      cases result with
      | error e => rfl
      | ok _ =>
        exact indexLedgers_eq hfills state' (fun L hL => hfuel L (List.mem_cons_of_mem sequence hL)) hcache' hblocks

/-- **Batches that were fetched together and are indexed in the order of their heights do what the plain indexer does**,
on the same servers, from any cache of whole ledgers: the handlers are given the same, leave the same state and end with
the same error, if with one. -/
theorem pipeline_sequential {log : EventLog} {s : BatchSystem Filter} {labels : List (BatchLabel Filter)}
    (h : run (batchStep lists rpc) (BatchSystem.init Filter log) labels = some s)
    (hpages : AllSteps (batchStep lists rpc) BatchWholePages (BatchSystem.init Filter log) labels)
    {batches : List Batch} (hmem : ∀ batch ∈ batches, batch ∈ s.batches) {blocks : List StellarBlock}
    (hblocks : Resolved batches blocks) (hfills : FillsPages cuts)
    (hfuel : ∀ sequence ∈ batches.flatMap Batch.bufferBlocks, pagesOf lists s.events.log sequence < fuel)
    {eventsCache : EventsCache} (hcache : HoldsLedgers s.events.log eventsCache) (state : σ) :
    indexLedgers (pagedApi lists s.events.log rpc cuts pageLimit) fuel indexData dataSources
      (batches.flatMap Batch.bufferBlocks) eventsCache state =
        some (indexBlocks indexData dataSources blocks state) := by
  obtain ⟨parts, hparts, rfl⟩ := hblocks
  exact indexLedgers_eq indexData dataSources hfills state hfuel hcache (resolved_results h hpages hmem hparts)

end Pipeline

section Dictionary

variable {Filter σ : Type} {lists : HorizonLists} {rpc : RpcFilters Filter} {cuts : PageCuts Filter} {pageLimit : ℕ+}
  {fuel : Nat} (env : FilterEnvironment)
  (runHandler : HandlerInput × SubqlDatasource × SubqlHandler → ExceptT JsError (StateM σ) PUnit)

/-- `indexData`: the handlers of a datasource whose filters accept the item are run, in their order. -/
def runAccepting (input : HandlerInput) (ds : SubqlDatasource) : ExceptT JsError (StateM σ) PUnit :=
  forM (ds.handlers.filter (fun handler => filterTypeMap env ds handler input))
    (fun handler => runHandler (input, ds, handler))

theorem indexBlocks_runAccepting (dataSources : List SubqlDatasource) (blocks : List StellarBlock) :
    indexBlocks (runAccepting env runHandler) dataSources blocks =
      forM (blocks.flatMap (acceptedCalls env dataSources)) runHandler := by
  unfold indexBlocks
  rw [Loops.forM_flatMap]
  refine Loops.forM_congr (fun block => ?_) blocks
  unfold acceptedCalls trace
  rw [traceOf_indexBlockData, indexBlockData_eq, Loops.forM_flatMap]
  exact Loops.forM_congr (fun call => List.forM_map.symm) _

theorem Available.exists_block {log : EventLog} {sequence : Nat} (h : Available lists log sequence) :
    ∃ block, ledgerResult lists log sequence = .ok block := by
  obtain ⟨⟨ledger, hledger⟩, hclosed⟩ := h
  exact ⟨_, ledgerResult_held hledger hclosed⟩

theorem exists_blocks_of_available {log : EventLog} : ∀ {heights : List Nat},
    (∀ sequence ∈ heights, Available lists log sequence) →
    ∃ blocks : List StellarBlock, heights.map (ledgerResult lists log) = blocks.map Except.ok
  | [], _ => ⟨[], rfl⟩
  | sequence :: heights, h => by
    obtain ⟨block, hblock⟩ := (h sequence List.mem_cons_self).exists_block
    obtain ⟨blocks, hblocks⟩ := exists_blocks_of_available (fun L hL => h L (List.mem_cons_of_mem sequence hL))
    exact ⟨block :: blocks, by rw [List.map_cons, List.map_cons, hblock, hblocks]⟩

/-- **Batches of the heights that a dictionary selects, fetched together, do what the plain indexer does on all
heights**: the ledgers left out make no difference, neither to the handlers' state nor to the error that ends them. -/
theorem dictionary_pipeline (queryAddressLimit : Nat) {dataSources : List SubqlDatasource}
    (hentries : buildDictionaryQueryEntries env.toLowerCase queryAddressLimit dataSources ≠ [])
    (hnamed : ∀ p ∈ handlersOf dataSources, ¬ Unnamed p.2) {log : EventLog} {s : BatchSystem Filter}
    {labels : List (BatchLabel Filter)} (h : run (batchStep lists rpc) (BatchSystem.init Filter log) labels = some s)
    (hpages : AllSteps (batchStep lists rpc) BatchWholePages (BatchSystem.init Filter log) labels)
    {heights : List Nat} (havailable : ∀ sequence ∈ heights, Available lists s.events.log sequence)
    {batches : List Batch} (hmem : ∀ batch ∈ batches, batch ∈ s.batches)
    (hheights : batches.flatMap Batch.bufferBlocks = selectedHeights env lists s.events.log
      (buildDictionaryQueryEntries env.toLowerCase queryAddressLimit dataSources) heights)
    {blocks : List StellarBlock} (hblocks : Resolved batches blocks) (hfills : FillsPages cuts)
    (hfuel : ∀ sequence ∈ heights, pagesOf lists s.events.log sequence < fuel) {eventsCache : EventsCache}
    (hcache : HoldsLedgers s.events.log eventsCache) (state : σ) :
    indexLedgers (pagedApi lists s.events.log rpc cuts pageLimit) fuel (runAccepting env runHandler) dataSources heights
      eventsCache state = some (indexBlocks (runAccepting env runHandler) dataSources blocks state) := by
  obtain ⟨parts, hparts, rfl⟩ := hblocks
  obtain ⟨allBlocks, hall⟩ := exists_blocks_of_available havailable
  have hselected := resolved_results h hpages hmem hparts
  rw [hheights, results_of_selectedHeights hall] at hselected
  have hsame := List.map_injective_iff.2 (fun _ _ hok => Except.ok.inj hok) hselected
  rw [indexLedgers_eq (runAccepting env runHandler) dataSources hfills state hfuel hcache hall, ← hsame,
    indexBlocks_runAccepting, indexBlocks_runAccepting]
  rw [flatMap_filter_of_nil (fun block _ hnot => acceptedCalls_of_not_selected hentries hnamed hnot)]

end Dictionary

/-! ## A handler that throws, and one that counts -/

def fullCuts : PageCuts Unit where
  transactions _ := sampleLimit
  operations _ := sampleLimit
  effects _ := sampleLimit
  events request := (request.limit.getD DEFAULT_PAGE_SIZE).toPNat'

theorem fullCuts_fill : FillsPages fullCuts := by
  intro request pageLimit hlimit
  simp only [fullCuts, hlimit, Option.getD_some]
  exact PNat.coe_toPNat' pageLimit

/-- It counts its calls, and throws at the ninth. -/
def failingHandler (_ : HandlerInput) (_ : Unit) : ExceptT JsError (StateM Nat) PUnit := fun count =>
  if count = 8 then (.error ⟨"failed to index"⟩, count) else (.ok ⟨⟩, count + 1)

theorem pipeline_sequential_failing :
    (indexLedgers (pagedApi invokingLists invokingLog unfiltered fullCuts sampleLimit) 5 failingHandler [()] [7, 7] ∅
      0).map (fun (result, count) => (result.isOk, count)) = some (false, 8) := by
  have hrun : run (batchStep invokingLists unfiltered) (BatchSystem.init Unit invokingLog) twoBatchLabels =
      some (batchRun invokingLists twoBatchLabels) := rfl
  have hblocks : Resolved (batchRun invokingLists twoBatchLabels).batches
      [invokingRecords.block, invokingRecords.block] :=
    ⟨[[invokingRecords.block], [invokingRecords.block]], rfl, rfl⟩
  have hlog : (batchRun invokingLists twoBatchLabels).events.log = invokingLog := rfl
  have hheights : (batchRun invokingLists twoBatchLabels).batches.flatMap Batch.bufferBlocks = [7, 7] := rfl
  have hfuel : ∀ sequence, pagesOf invokingLists invokingLog sequence < 5 := fun _ => Nat.lt_succ_self 4
  have hsame : indexLedgers (pagedApi invokingLists (batchRun invokingLists twoBatchLabels).events.log unfiltered
      fullCuts sampleLimit) 5 failingHandler [()]
        ((batchRun invokingLists twoBatchLabels).batches.flatMap Batch.bufferBlocks) ∅ 0 =
      some (indexBlocks failingHandler [()] [invokingRecords.block, invokingRecords.block] 0) :=
    pipeline_sequential failingHandler [()] hrun batchPages_twoBatches (fun _ h => h) hblocks fullCuts_fill
      (fun sequence _ => hlog ▸ hfuel sequence) (hlog ▸ holdsLedgers_empty invokingLog) 0
  rw [hlog, hheights] at hsame
  rw [hsame]
  decide +kernel

def countingHandler (_ : HandlerInput × SubqlDatasource × SubqlHandler) : ExceptT JsError (StateM Nat) PUnit :=
  fun count => (.ok ⟨⟩, count + 1)

theorem dictionary_pipeline_mixed :
    (indexLedgers (pagedApi mixedLists invokingLog unfiltered fullCuts sampleLimit) 5
      (runAccepting transferFilters countingHandler) [callsDatasource] [6, 7] ∅ 0).map
        (fun (result, count) => (result.isOk, count)) = some (true, 1) := by
  have hrun : run (batchStep mixedLists unfiltered) (BatchSystem.init Unit invokingLog) selectedLabels =
      some (batchRun mixedLists selectedLabels) := rfl
  have hblocks : Resolved (batchRun mixedLists selectedLabels).batches [mixedBlock 7] := ⟨[[mixedBlock 7]], rfl, rfl⟩
  have hlog : (batchRun mixedLists selectedLabels).events.log = invokingLog := rfl
  have hfuel : ∀ sequence, pagesOf mixedLists invokingLog sequence < 5 := fun _ => Nat.lt_succ_self 4
  have hsame : indexLedgers (pagedApi mixedLists (batchRun mixedLists selectedLabels).events.log unfiltered fullCuts
      sampleLimit) 5 (runAccepting transferFilters countingHandler) [callsDatasource] [6, 7] ∅ 0 =
      some (indexBlocks (runAccepting transferFilters countingHandler) [callsDatasource] [mixedBlock 7] 0) :=
    dictionary_pipeline transferFilters countingHandler 100 (entries_callsDatasource ▸ List.cons_ne_nil _ _)
      named_callsDatasource hrun batchPages_selected (hlog ▸ available_mixed) (fun _ h => h)
      (hlog ▸ selectedHeights_mixed.symm) hblocks fullCuts_fill (fun sequence _ => hlog ▸ hfuel sequence)
      (hlog ▸ holdsLedgers_empty invokingLog) 0
  rw [hlog] at hsame
  rw [hsame]
  decide +kernel

end SubqlStellar
