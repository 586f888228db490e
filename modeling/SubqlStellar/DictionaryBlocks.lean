import SubqlStellar.BatchOrder
import SubqlStellar.DictionaryRows
import SubqlStellar.IndexerDelivery
/-!
# DictionaryBlocks — indexing only the blocks a dictionary selects

Where a project's handlers leave query entries, only the blocks with a row that one of the entries selects need be
fetched and indexed.  A block that none selects has no item that a handler of a kind the `switch` names accepts
(`unnamed_of_not_selected`), so a project of such handlers loses no call of a handler in runs of whole pages, whatever
the batches either way (`dictionary_keeps_calls`).
-/
namespace SubqlStellar

open Runs (run AllSteps)

theorem flatMap_filter_of_nil {α β : Type} {p : α → Bool} {f : α → List β} : ∀ {l : List α},
    (∀ a ∈ l, p a = false → f a = []) → (l.filter p).flatMap f = l.flatMap f
  | [], _ => rfl
  | a :: l, h => by
    have ih : (l.filter p).flatMap f = l.flatMap f :=
      flatMap_filter_of_nil (fun b hb => h b (List.mem_cons_of_mem a hb))
    by_cases ha : p a = true
    · rw [List.filter_cons_of_pos ha, List.flatMap_cons, List.flatMap_cons, ih]
    · rw [List.filter_cons_of_neg ha, List.flatMap_cons, ih, h a List.mem_cons_self (Bool.eq_false_iff.2 ha),
        List.nil_append]

section Selection

variable (env : FilterEnvironment)

def entrySelects (entry : DictionaryQueryEntry) (input : HandlerInput) : Bool :=
  match dictionaryRow env input with
  | some (entity, row) => decide (entity = entry.entity) && entry.conditions.all (satisfies row)
  | none               => false

def selected (entries : List DictionaryQueryEntry) (block : StellarBlock) : Bool :=
  ((visits block.wrapped).flatMap Prod.snd).any (fun input => entries.any (fun entry => entrySelects env entry input))

/-- The handlers' calls for a block: each input of `indexData`, with the handlers whose filters accept it. -/
def acceptedCalls (dataSources : List SubqlDatasource) (block : StellarBlock) :
    List (HandlerInput × SubqlDatasource × SubqlHandler) :=
  (trace block dataSources).flatMap (fun (input, ds) =>
    (ds.handlers.filter (fun handler => filterTypeMap env ds handler input)).map (fun handler => (input, ds, handler)))

variable {env}

theorem mem_acceptedCalls {dataSources : List SubqlDatasource} {block : StellarBlock} {input : HandlerInput}
    {ds : SubqlDatasource} {handler : SubqlHandler}
    (h : (input, ds, handler) ∈ acceptedCalls env dataSources block) :
    input ∈ (visits block.wrapped).flatMap Prod.snd ∧ (ds, handler) ∈ handlersOf dataSources ∧
      filterTypeMap env ds handler input = true := by
  obtain ⟨⟨input', ds'⟩, htrace, hcall⟩ := List.mem_flatMap.1 h
  obtain ⟨handler', hhandler, heq⟩ := List.mem_map.1 hcall
  cases heq
  obtain ⟨hhandler, haccepts⟩ := List.mem_filter.1 hhandler
  unfold trace at htrace
  rw [traceOf_indexBlockData] at htrace
  obtain ⟨visit, hvisit, hcalls⟩ := List.mem_flatMap.1 htrace
  obtain ⟨ds', hds, hinputs⟩ := List.mem_flatMap.1 hcalls
  obtain ⟨input', hinput, heq⟩ := List.mem_map.1 hinputs
  cases heq
  exact ⟨List.mem_flatMap.2 ⟨visit, hvisit, hinput⟩, mem_handlersOf.2 ⟨hds, hhandler⟩, haccepts⟩

theorem row_of_accepted {ds : SubqlDatasource} {handler : SubqlHandler} {queryAddressLimit : Nat}
    {own : DictionaryQueryEntry} (hown : translated env.toLowerCase queryAddressLimit ds handler = some own)
    {input : HandlerInput} (haccepts : filterTypeMap env ds handler input = true) :
    ∃ row, dictionaryRow env input = some (own.entity, row) ∧
      ∀ condition ∈ own.conditions, satisfies row condition = true := by
  match handler, input, hown, haccepts with
  | .transaction (some filter), .transaction tx, rfl, haccepts =>
    exact ⟨_, rfl, satisfies_transactionEntry (filterTypeMap.address ds) haccepts⟩
  | .operation (some filter), .operation op, rfl, haccepts =>
    exact ⟨_, rfl, satisfies_operationEntry (filterTypeMap.address ds) haccepts⟩
  | .effects (some filter), .effects effect, rfl, haccepts =>
    exact ⟨_, rfl, satisfies_effectEntry (filterTypeMap.address ds) haccepts⟩
  | .event (some filter), .event event, rfl, haccepts => exact ⟨_, rfl, satisfies_eventEntry haccepts queryAddressLimit⟩

/-- **An item that a handler of a named kind accepts is selected**, where there are entries at all: the handler is
represented in them. -/
theorem entrySelects_of_accepted {dataSources : List SubqlDatasource} {queryAddressLimit : Nat}
    (hentries : buildDictionaryQueryEntries env.toLowerCase queryAddressLimit dataSources ≠ []) {ds : SubqlDatasource}
    {handler : SubqlHandler} (hhandler : (ds, handler) ∈ handlersOf dataSources) (hnamed : ¬ Unnamed handler)
    {input : HandlerInput} (haccepts : filterTypeMap env ds handler input = true) :
    ∃ entry ∈ buildDictionaryQueryEntries env.toLowerCase queryAddressLimit dataSources,
      entrySelects env entry input = true := by
  have husable : ∀ p ∈ handlersOf dataSources, ¬ Unusable p.1 p.2 :=
    fun p hp hunusable => hentries (buildDictionaryQueryEntries_of_unusable hp hunusable)
  obtain ⟨own, hown, entry, hentry, hentity, hperm⟩ : Represented env.toLowerCase queryAddressLimit
      (buildDictionaryQueryEntries env.toLowerCase queryAddressLimit dataSources) ds handler :=
    represented_of_named husable hhandler hnamed
  have htranslated := translated_of_pushed hown (List.mem_singleton_self own)
  obtain ⟨row, hrow, hsatisfies⟩ := row_of_accepted htranslated haccepts
  refine ⟨entry, hentry, ?_⟩
  unfold entrySelects
  rw [hrow]
  simp only [hentity, decide_true, Bool.true_and, List.all_eq_true]
  exact fun condition hcondition => hsatisfies condition (hperm.mem_iff.1 hcondition)

/-- **In a block that is not selected only handlers of unnamed kinds accept an item.** -/
theorem unnamed_of_not_selected {dataSources : List SubqlDatasource} {queryAddressLimit : Nat}
    (hentries : buildDictionaryQueryEntries env.toLowerCase queryAddressLimit dataSources ≠ []) {block : StellarBlock}
    (hnot : selected env (buildDictionaryQueryEntries env.toLowerCase queryAddressLimit dataSources) block = false) :
    ∀ call ∈ acceptedCalls env dataSources block, Unnamed call.2.2 := by
  rintro ⟨input, ds, handler⟩ hcall
  obtain ⟨hinput, hhandler, haccepts⟩ := mem_acceptedCalls hcall
  by_contra hnamed
  obtain ⟨entry, hentry, hselects⟩ := entrySelects_of_accepted hentries hhandler hnamed haccepts
  have hsome : selected env (buildDictionaryQueryEntries env.toLowerCase queryAddressLimit dataSources) block = true :=
    List.any_eq_true.2 ⟨input, hinput, List.any_eq_true.2 ⟨entry, hentry, hselects⟩⟩
  rw [hnot] at hsome
  cases hsome

theorem acceptedCalls_of_not_selected {dataSources : List SubqlDatasource} {queryAddressLimit : Nat}
    (hentries : buildDictionaryQueryEntries env.toLowerCase queryAddressLimit dataSources ≠ [])
    (hnamed : ∀ p ∈ handlersOf dataSources, ¬ Unnamed p.2) {block : StellarBlock}
    (hnot : selected env (buildDictionaryQueryEntries env.toLowerCase queryAddressLimit dataSources) block = false) :
    acceptedCalls env dataSources block = [] := by
  rw [List.eq_nil_iff_forall_not_mem]
  intro call hcall
  exact hnamed _ (mem_acceptedCalls hcall).2.1 (unnamed_of_not_selected hentries hnot call hcall)

end Selection

section Batches

variable {Filter : Type} {lists : HorizonLists} {rpc : RpcFilters Filter} {env : FilterEnvironment}

/-- The heights whose blocks the dictionary selects, as its query for a range of heights answers. -/
def selectedHeights (env : FilterEnvironment) (lists : HorizonLists) (log : EventLog)
    (entries : List DictionaryQueryEntry) (heights : List Nat) : List Nat :=
  heights.filter (fun sequence => match ledgerResult lists log sequence with
    | .ok block => selected env entries block
    | .error _  => false)

theorem results_of_selectedHeights {log : EventLog} {entries : List DictionaryQueryEntry} :
    ∀ {heights : List Nat} {blocks : List StellarBlock},
    heights.map (ledgerResult lists log) = blocks.map Except.ok →
    (selectedHeights env lists log entries heights).map (ledgerResult lists log) =
      (blocks.filter (selected env entries)).map Except.ok
  | [], [], _ => rfl
  | [], _ :: _, h => by cases h
  | _ :: _, [], h => by cases h
  | sequence :: heights, block :: blocks, h => by
    obtain ⟨hblock, hblocks⟩ := List.cons.inj h
    have ih : (selectedHeights env lists log entries heights).map (ledgerResult lists log) =
        (blocks.filter (selected env entries)).map Except.ok := results_of_selectedHeights hblocks
    unfold selectedHeights at ih ⊢
    by_cases hselected : selected env entries block = true
    · rw [List.filter_cons_of_pos (by rw [hblock]; exact hselected), List.filter_cons_of_pos hselected, List.map_cons,
        List.map_cons, hblock, ih]
    · rw [List.filter_cons_of_neg (by rw [hblock]; exact hselected), List.filter_cons_of_neg hselected, ih]

/-- **Indexing only the heights a dictionary selects loses no call of a handler**: a project whose handlers are all of
kinds that the `switch` names, and leave entries, makes the same calls in the same order when a run fetches all heights
and when another, with batches and interleavings of its own, fetches the selected ones, both of whole pages. -/
theorem dictionary_keeps_calls (env : FilterEnvironment) (queryAddressLimit : Nat) (dataSources : List SubqlDatasource)
    (hentries : buildDictionaryQueryEntries env.toLowerCase queryAddressLimit dataSources ≠ [])
    (hnamed : ∀ p ∈ handlersOf dataSources, ¬ Unnamed p.2) {log : EventLog} {s s' : BatchSystem Filter}
    {labels labels' : List (BatchLabel Filter)}
    (h : run (batchStep lists rpc) (BatchSystem.init Filter log) labels = some s)
    (h' : run (batchStep lists rpc) (BatchSystem.init Filter log) labels' = some s')
    (hpages : AllSteps (batchStep lists rpc) BatchWholePages (BatchSystem.init Filter log) labels)
    (hpages' : AllSteps (batchStep lists rpc) BatchWholePages (BatchSystem.init Filter log) labels')
    {batches batches' : List Batch} (hmem : ∀ batch ∈ batches, batch ∈ s.batches)
    (hmem' : ∀ batch ∈ batches', batch ∈ s'.batches)
    (havailable : ∀ sequence ∈ batches.flatMap Batch.bufferBlocks, Available lists log sequence)
    (hheights : batches'.flatMap Batch.bufferBlocks = selectedHeights env lists log
      (buildDictionaryQueryEntries env.toLowerCase queryAddressLimit dataSources) (batches.flatMap Batch.bufferBlocks))
    {blocks blocks' : List StellarBlock} (hblocks : Resolved batches blocks) (hblocks' : Resolved batches' blocks') :
    blocks'.flatMap (acceptedCalls env dataSources) = blocks.flatMap (acceptedCalls env dataSources) := by
  have havailable' : ∀ sequence ∈ batches'.flatMap Batch.bufferBlocks, Available lists log sequence := by
    intro sequence hsequence
    rw [hheights] at hsequence
    exact havailable sequence (List.mem_filter.1 hsequence).1
  have hresults := resolved_available h hpages hmem havailable hblocks
  have hresults' := resolved_available h' hpages' hmem' havailable' hblocks'
  rw [hheights, results_of_selectedHeights hresults] at hresults'
  have hsame := List.map_injective_iff.2 (fun _ _ hok => Except.ok.inj hok) hresults'
  rw [← hsame]
  exact flatMap_filter_of_nil (fun block _ hnot => acceptedCalls_of_not_selected hentries hnamed hnot)

end Batches

/-! ## One ledger of two -/

/-- Ledger 7 calls a contract, any other makes a payment. -/
def mixedLists : HorizonLists :=
  { invokingLists with
    operations sequence :=
      [⟨invokingOperation, invokingHash, if sequence = 7 then "invoke_host_function" else "payment", "G1"⟩] }

def callsDatasource : SubqlDatasource where
  kind := .runtime
  options := none
  handlers := [.operation (some ⟨some "invoke_host_function", none⟩)]

def mixedBlock (sequence : Nat) : StellarBlock :=
  (heldRecords mixedLists invokingLog ⟨sequence, "2024-01-01T00:00:00Z"⟩ sequence).block

def callLabels : List (BatchLabel Unit) :=
  [.events (.page 0 sampleLimit), .events (.page 0 sampleLimit), .events (.finish 0)]

def allLabels : List (BatchLabel Unit) :=
  [.fetchBlocks sampleLimit [6, 7]] ++ horizonLabels 0 0 ++ horizonLabels 0 1 ++ callLabels ++ [.task 0 1 .resume]

def selectedLabels : List (BatchLabel Unit) :=
  [.fetchBlocks oneRecord [7]] ++ horizonLabels 0 0 ++ callLabels ++ [.task 0 0 .resume]

theorem entries_callsDatasource : buildDictionaryQueryEntries transferFilters.toLowerCase 100 [callsDatasource] =
    [⟨.operations, [⟨"type", .text "invoke_host_function", "equalTo"⟩]⟩] := by decide +kernel

theorem named_callsDatasource : ∀ p ∈ handlersOf [callsDatasource], ¬ Unnamed p.2 := by
  intro p hp
  rw [List.mem_singleton.1 hp]
  exact id

theorem selectedHeights_mixed : selectedHeights transferFilters mixedLists invokingLog
    (buildDictionaryQueryEntries transferFilters.toLowerCase 100 [callsDatasource]) [6, 7] = [7] := by
  rw [entries_callsDatasource]
  decide +kernel

theorem available_mixed : ∀ sequence ∈ [6, 7], Available mixedLists invokingLog sequence := by
  intro sequence hsequence
  obtain rfl | rfl : sequence = 6 ∨ sequence = 7 := by simpa using hsequence
  · exact ⟨⟨_, rfl⟩, fun _ => Nat.le_succ 6⟩
  · exact ⟨⟨_, rfl⟩, fun _ => Nat.le_refl 7⟩

theorem batchPages_selected : AllSteps (batchStep mixedLists unfiltered) BatchWholePages
    (BatchSystem.init Unit invokingLog) selectedLabels := by decide +kernel

theorem dictionary_keeps_calls_mixed :
    [mixedBlock 7].flatMap (acceptedCalls transferFilters [callsDatasource]) =
      [mixedBlock 6, mixedBlock 7].flatMap (acceptedCalls transferFilters [callsDatasource]) := by
  have hall : run (batchStep mixedLists unfiltered) (BatchSystem.init Unit invokingLog) allLabels =
      some (batchRun mixedLists allLabels) := rfl
  have hselected : run (batchStep mixedLists unfiltered) (BatchSystem.init Unit invokingLog) selectedLabels =
      some (batchRun mixedLists selectedLabels) := rfl
  have hallPages : AllSteps (batchStep mixedLists unfiltered) BatchWholePages (BatchSystem.init Unit invokingLog)
      allLabels := by decide +kernel
  have hblocks : Resolved (batchRun mixedLists allLabels).batches [mixedBlock 6, mixedBlock 7] :=
    ⟨[[mixedBlock 6, mixedBlock 7]], rfl, rfl⟩
  have hblocks' : Resolved (batchRun mixedLists selectedLabels).batches [mixedBlock 7] := ⟨[[mixedBlock 7]], rfl, rfl⟩
  have hboth : (batchRun mixedLists allLabels).batches.flatMap Batch.bufferBlocks = [6, 7] := rfl
  have havailable : ∀ sequence ∈ (batchRun mixedLists allLabels).batches.flatMap Batch.bufferBlocks,
      Available mixedLists invokingLog sequence := hboth ▸ available_mixed
  exact dictionary_keeps_calls transferFilters 100 [callsDatasource] (entries_callsDatasource ▸ List.cons_ne_nil _ _)
    named_callsDatasource hall hselected hallPages batchPages_selected (fun _ h => h) (fun _ h => h) havailable
    selectedHeights_mixed.symm hblocks hblocks'

end SubqlStellar
