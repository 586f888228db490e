import SubqlStellar.BatchCalls
/-!
# BatchBlocks — what a batch resolves with

A block that a batch wraps is assembled from its ledger's records and from what its own call of `getEvents` resolved
with (`TaskOk`), in every run.  Where that is all of the ledger's events, as in runs of whole pages, a batch resolves
with the blocks a sequential run fetches, one ledger after the other with no other call in between, in the order of the
heights it was given (`batch_resolved`), however its calls interleave with each other, with other batches, with failures
and with new ledgers.
-/
namespace SubqlStellar

open Promises (Settled)
open Runs (run AllSteps)

section Safety

variable {Filter : Type} {lists : HorizonLists} {rpc : RpcFilters Filter}

/-- What a step leaves as it is on the Soroban server: what is closed, what calls have resolved with, and which ledgers
its calls are for. -/
structure Grows (events events' : EventsSystem Filter) : Prop where
  newestLedger : events.log.newestLedger ≤ events'.log.newestLedger
  oldestLedger : events.oldestLedger ≤ events'.oldestLedger
  ledgerEvents_eq : ∀ L, L ≤ events.log.newestLedger →
    ledgerEvents L events'.log.events = ledgerEvents L events.log.events
  calls : ∀ (i : Nat) (call : Call Filter), events.calls[i]? = some call →
    ∃ call' : Call Filter, events'.calls[i]? = some call' ∧ call'.sequence = call.sequence ∧
      ∀ sequence response, call = .resolved sequence response → call' = call

theorem Grows.refl (events : EventsSystem Filter) : Grows events events :=
  ⟨Nat.le_refl _, Nat.le_refl _, fun _ _ => rfl, fun _ call h => ⟨call, h, rfl, fun _ _ _ => rfl⟩⟩

theorem Grows.resolved {events events' : EventsSystem Filter} (h : Grows events events') {sequence : Nat}
    {response : CachedEventsResponse} (hcall : Call.resolved sequence response ∈ events.calls) :
    Call.resolved sequence response ∈ events'.calls := by
  obtain ⟨i, hi⟩ := List.mem_iff_getElem?.1 hcall
  obtain ⟨call', hcall', -, hsame⟩ := h.calls i _ hi
  rw [hsame sequence response rfl] at hcall'
  exact List.mem_of_getElem? hcall'

theorem grows_addCall (events : EventsSystem Filter) (eventsCache : EventsCache) (call : Call Filter) :
    Grows events ({ events with eventsCache }.addCall call) := by
  refine ⟨Nat.le_refl _, Nat.le_refl _, fun _ _ => rfl, fun i call' h => ⟨call', ?_, rfl, fun _ _ _ => rfl⟩⟩
  have hlt := (List.getElem?_eq_some_iff.1 h).1
  exact (List.getElem?_append_left hlt).trans h

theorem grows_setCall {events : EventsSystem Filter} (eventsCache : EventsCache) {i : Nat} {call call' : Call Filter}
    (hcall : events.calls[i]? = some call) (hpending : ∀ sequence response, call ≠ .resolved sequence response)
    (hsequence : call'.sequence = call.sequence) : Grows events ({ events with eventsCache }.setCall i call') := by
  refine ⟨Nat.le_refl _, Nat.le_refl _, fun _ _ => rfl, fun j other h => ?_⟩
  by_cases hij : i = j
  · subst hij
    cases hcall.symm.trans h
    exact ⟨call', List.getElem?_set_self (List.getElem?_eq_some_iff.1 h).1, hsequence,
      fun sequence response hresolved => absurd hresolved (hpending sequence response)⟩
  · exact ⟨other, (List.getElem?_set_ne hij).trans h, rfl, fun _ _ _ => rfl⟩

theorem grows_of_moves {events events' : EventsSystem Filter} {label : Label Filter}
    (h : Moves rpc events label events') : Grows events events' := by
  cases h with
  | hit hentry => exact grows_addCall events _ _
  | miss hnone => exact grows_addCall events events.eventsCache _
  | refused hcall hpage => exact grows_setCall events.eventsCache hcall nofun rfl
  | last hcall hpage hdone => exact grows_setCall events.eventsCache hcall nofun rfl
  | more hcall hpage hnext => exact grows_setCall events.eventsCache hcall nofun rfl
  | fail hcall => exact grows_setCall events.eventsCache hcall nofun rfl
  | finish hcall => exact grows_setCall _ hcall nofun rfl
  | close hledger hids =>
    exact ⟨Nat.le_succ _, Nat.le_refl _, fun L hL => ledgerEvents_close hledger hL,
      fun i call h => ⟨call, h, rfl, fun _ _ _ => rfl⟩⟩
  | prune hfrom hto => exact ⟨Nat.le_refl _, hfrom, fun _ _ => rfl, fun i call h => ⟨call, h, rfl, fun _ _ _ => rfl⟩⟩

/-- A page loop has collected what comes before its cursor. -/
inductive LoopOk {α : Type} (held : List α) : PageLoop α → Prop
  | calling {cursor : Option Nat} {records : List α} (hplace : cursor.getD 0 ≤ held.length)
      (hrecords : records = held.take (cursor.getD 0)) : LoopOk held (.calling cursor records)
  | collected : LoopOk held (.collected held)

theorem LoopOk.receive {α : Type} {held : List α} {cut : ℕ+} {loop loop' : PageLoop α} (h : LoopOk held loop)
    (hreceive : loop.receive held cut = some loop') : LoopOk held loop' := by
  cases h with
  | collected => cases hreceive
  | @calling cursor records hplace hrecords =>
    have hlength : (pageOf held (fun _ => cut) cursor).records.length =
        min (cut : Nat) (held.length - cursor.getD 0) := by simp [pageOf]
    have hpos : 0 < (cut : Nat) := cut.2
    simp only [PageLoop.receive] at hreceive
    split at hreceive
    · cases hreceive
      refine LoopOk.calling ?_ ?_
      · show cursor.getD 0 + (pageOf held (fun _ => cut) cursor).records.length ≤ held.length
        omega
      · show records ++ (pageOf held (fun _ => cut) cursor).records =
          held.take (cursor.getD 0 + (pageOf held (fun _ => cut) cursor).records.length)
        have hpage : (pageOf held (fun _ => cut) cursor).records =
            (held.drop (cursor.getD 0)).take (pageOf held (fun _ => cut) cursor).records.length := by
          simp [pageOf]
        rw [List.take_add, hrecords, ← hpage]
    · rename_i hempty
      cases hreceive
      have hend : held.length ≤ cursor.getD 0 := by omega
      rw [hrecords, List.take_of_length_le hend]
      exact LoopOk.collected

/-- The events that a call of `fetchAndWrapLedger` wraps: what its call of `getEvents` resolved with, and none where it
makes no such call. -/
def Handed (lists : HorizonLists) (events : EventsSystem Filter) (sequence : Nat)
    (sorobanEvents : List SorobanRpcEventResponse) : Prop :=
  if hasInvokeHostFunctionOp (lists.operations sequence) then
    ∃ response, Call.resolved sequence response ∈ events.calls ∧ sorobanEvents = response.events
  else sorobanEvents = []

/-- What a call of `fetchAndWrapLedger` holds comes from Horizon's lists and from its call of `getEvents`. -/
inductive TaskOk (lists : HorizonLists) (events : EventsSystem Filter) (sequence : Nat) : TaskState → Prop
  | fetching {ledger : Option LedgerRecord} {transactions : PageLoop TransactionRecord}
      {operations : PageLoop OperationRecord} {effects : PageLoop EffectRecord}
      (hledger : ∀ record, ledger = some record → lists.ledger sequence = .ok record)
      (htransactions : LoopOk (lists.transactions sequence) transactions)
      (hoperations : LoopOk (lists.operations sequence) operations)
      (heffects : LoopOk (lists.effects sequence) effects) :
      TaskOk lists events sequence (.fetching ledger transactions operations effects)
  | awaitingEvents {ledger : LedgerRecord} {callIndex : Nat} {call : Call Filter}
      (hledger : lists.ledger sequence = .ok ledger)
      (hgate : hasInvokeHostFunctionOp (lists.operations sequence) = true)
      (hcall : events.calls[callIndex]? = some call) (hsequence : call.sequence = sequence) :
      TaskOk lists events sequence (.awaitingEvents ledger (lists.transactions sequence) (lists.operations sequence)
        (lists.effects sequence) callIndex)
  | wrapped {ledger : LedgerRecord} {sorobanEvents : List SorobanRpcEventResponse}
      (hledger : lists.ledger sequence = .ok ledger) (hevents : Handed lists events sequence sorobanEvents) :
      TaskOk lists events sequence (.wrapped (assembleBlock ledger (lists.transactions sequence)
        (lists.operations sequence) (lists.effects sequence) sorobanEvents))
  | rejected {e : JsError} : TaskOk lists events sequence (.rejected e)

theorem taskOk_start (events : EventsSystem Filter) (pageLimit : ℕ+) (sequence : Nat) :
    TaskOk lists events sequence (LedgerTask.start pageLimit sequence).state := by
  refine TaskOk.fetching (fun record h => by cases h) ?_ ?_ ?_ <;>
    exact LoopOk.calling (Nat.zero_le _) List.take_zero.symm

theorem heldRecords_grows {events events' : EventsSystem Filter} (hgrows : Grows events events') {sequence : Nat}
    (hheld : hasInvokeHostFunctionOp (lists.operations sequence) = true → sequence ≤ events.log.newestLedger)
    (ledger : LedgerRecord) :
    heldRecords lists events'.log ledger sequence = heldRecords lists events.log ledger sequence := by
  unfold heldRecords
  by_cases hgate : hasInvokeHostFunctionOp (lists.operations sequence) = true
  · rw [hgrows.ledgerEvents_eq sequence (hheld hgate)]
  · simp only [hgate]
    rfl

theorem Handed.grows {events events' : EventsSystem Filter} (hgrows : Grows events events') {sequence : Nat}
    {sorobanEvents : List SorobanRpcEventResponse} (h : Handed lists events sequence sorobanEvents) :
    Handed lists events' sequence sorobanEvents := by
  unfold Handed at h ⊢
  split
  · rename_i hgate
    rw [if_pos hgate] at h
    obtain ⟨response, hresolved, heq⟩ := h
    exact ⟨response, hgrows.resolved hresolved, heq⟩
  · rename_i hgate
    rwa [if_neg hgate] at h

theorem TaskOk.grows {events events' : EventsSystem Filter} {sequence : Nat} {state : TaskState}
    (h : TaskOk lists events sequence state) (hgrows : Grows events events') : TaskOk lists events' sequence state := by
  cases h with
  | fetching hledger htransactions hoperations heffects =>
    exact TaskOk.fetching hledger htransactions hoperations heffects
  | awaitingEvents hledger hgate hcall hsequence =>
    obtain ⟨call', hcall', hsequence', -⟩ := hgrows.calls _ _ hcall
    exact TaskOk.awaitingEvents hledger hgate hcall' (hsequence'.trans hsequence)
  | wrapped hledger hevents => exact TaskOk.wrapped hledger (hevents.grows hgrows)
  | rejected => exact TaskOk.rejected

theorem start_call {events events' : EventsSystem Filter} {height : Nat} {pageLimit : ℕ+}
    (h : step rpc events (.start height [] (some pageLimit)) = some events') :
    ∃ call, events'.calls[events.calls.length]? = some call ∧ call.sequence = height := by
  cases moves_of_step h with
  | hit hentry => exact ⟨_, List.getElem?_concat_length, rfl⟩
  | miss hnone => exact ⟨_, List.getElem?_concat_length, rfl⟩

theorem TaskOk.moves {events events' : EventsSystem Filter} {sequence : Nat} {pageLimit : ℕ+} {state state' : TaskState}
    {label : TaskLabel} (h : TaskOk lists events sequence state)
    (hm : TaskMoves lists rpc events sequence pageLimit state label events' state') :
    TaskOk lists events' sequence state' := by
  cases hm with
  | ledger hledger =>
    cases h with
    | fetching _ htransactions hoperations heffects =>
      refine TaskOk.fetching (fun record h => ?_) htransactions hoperations heffects
      cases h
      exact hledger
  | noLedger hledger => exact TaskOk.rejected
  | transactions hreceive =>
    cases h with
    | fetching hledger htransactions hoperations heffects =>
      exact TaskOk.fetching hledger (htransactions.receive hreceive) hoperations heffects
  | operations hreceive =>
    cases h with
    | fetching hledger htransactions hoperations heffects =>
      exact TaskOk.fetching hledger htransactions (hoperations.receive hreceive) heffects
  | effects hreceive =>
    cases h with
    | fetching hledger htransactions hoperations heffects =>
      exact TaskOk.fetching hledger htransactions hoperations (heffects.receive hreceive)
  | horizonFails => exact TaskOk.rejected
  | call hgate hstart =>
    cases h with
    | fetching hledger htransactions hoperations heffects =>
      cases htransactions
      cases hoperations
      cases heffects
      obtain ⟨call, hcall, hsequence⟩ := start_call hstart
      exact TaskOk.awaitingEvents (hledger _ rfl) hgate hcall hsequence
  | noCall hgate =>
    cases h with
    | fetching hledger htransactions hoperations heffects =>
      cases htransactions
      cases hoperations
      cases heffects
      exact TaskOk.wrapped (hledger _ rfl) (by simp [Handed, hgate])
  | @resolved _ _ _ _ _ L response hresolved =>
    cases h with
    | awaitingEvents hledger hgate hcall hsequence =>
      cases hresolved.symm.trans hcall
      have hL : L = sequence := hsequence
      subst hL
      refine TaskOk.wrapped hledger ?_
      rw [Handed, if_pos hgate]
      exact ⟨response, List.mem_of_getElem? hresolved, rfl⟩
  | failed hcall => exact TaskOk.rejected
  | latestLedgerFails hcall => exact TaskOk.rejected

theorem forall_mem_replaced {α : Type} {P : α → Prop} {l : List α} {a : α} (i : Nat) (h : ∀ b ∈ l, P b) (ha : P a) :
    ∀ b ∈ l.set i a, P b := by
  intro b hb
  rcases List.mem_or_eq_of_mem_set hb with hb | rfl
  · exact h b hb
  · exact ha

structure BatchOk (lists : HorizonLists) (events : EventsSystem Filter) (batch : Batch) : Prop where
  sequences : batch.tasks.map LedgerTask.sequence = batch.bufferBlocks
  tasks : ∀ task ∈ batch.tasks, TaskOk lists events task.sequence task.state
  outcome : Settled batch.outcome (batch.tasks.map LedgerTask.result)

structure BatchesOk (lists : HorizonLists) (rpc : RpcFilters Filter) (s : BatchSystem Filter) : Prop where
  events : Served rpc s.events
  batches : ∀ batch ∈ s.batches, BatchOk lists s.events batch

theorem batchOk_fetchBlocks (events : EventsSystem Filter) (pageLimit : ℕ+) (bufferBlocks : List Nat) :
    BatchOk lists events (fetchBlocks pageLimit bufferBlocks) := by
  refine ⟨?_, fun task htask => ?_, Promises.settled_all _⟩
  · show (bufferBlocks.map (LedgerTask.start pageLimit)).map LedgerTask.sequence = bufferBlocks
    rw [List.map_map]
    exact List.map_id _
  · obtain ⟨sequence, -, rfl⟩ := List.mem_map.1 htask
    exact taskOk_start events pageLimit sequence

theorem BatchOk.grows {events events' : EventsSystem Filter} {batch : Batch} (h : BatchOk lists events batch)
    (hgrows : Grows events events') : BatchOk lists events' batch :=
  ⟨h.sequences, fun task htask => (h.tasks task htask).grows hgrows, h.outcome⟩

theorem BatchOk.setTask {events : EventsSystem Filter} {batch : Batch} {k : Nat} {task : LedgerTask}
    {state' : TaskState} (h : BatchOk lists events batch) (htask : batch.tasks[k]? = some task)
    (hwaiting : task.result = none) (hstate : TaskOk lists events task.sequence state') :
    BatchOk lists events (batch.setTask k { task with state := state' }) := by
  refine ⟨?_, forall_mem_replaced k h.tasks hstate, ?_⟩
  · show (batch.tasks.set k _).map LedgerTask.sequence = batch.bufferBlocks
    have hk : batch.bufferBlocks[k]? = some task.sequence := by
      rw [← h.sequences, List.getElem?_map, htask]
      rfl
    obtain ⟨hlt, hsequence⟩ := List.getElem?_eq_some_iff.1 hk
    rw [List.map_set, h.sequences]
    show batch.bufferBlocks.set k task.sequence = batch.bufferBlocks
    rw [← hsequence]
    exact List.set_getElem_self hlt
  · show Settled (Promises.settle batch.outcome ((batch.tasks.set k _).map LedgerTask.result))
      ((batch.tasks.set k _).map LedgerTask.result)
    rw [List.map_set]
    refine h.outcome.set ?_ _
    rw [List.getElem?_map, htask]
    exact congrArg some hwaiting

theorem TaskMoves.events_step {events events' : EventsSystem Filter} {sequence : Nat} {pageLimit : ℕ+}
    {state state' : TaskState} {label : TaskLabel}
    (h : TaskMoves lists rpc events sequence pageLimit state label events' state') :
    events' = events ∨ step rpc events (.start sequence [] (some pageLimit)) = some events' := by
  cases h with
  | call hgate hstart => exact Or.inr hstart
  | _ => exact Or.inl rfl

theorem TaskMoves.grows {events events' : EventsSystem Filter} {sequence : Nat} {pageLimit : ℕ+}
    {state state' : TaskState} {label : TaskLabel}
    (h : TaskMoves lists rpc events sequence pageLimit state label events' state') : Grows events events' := by
  rcases h.events_step with rfl | hstart
  · exact Grows.refl events'
  · exact grows_of_moves (moves_of_step hstart)

theorem batchesOk_step {s s' : BatchSystem Filter} {label : BatchLabel Filter} (hi : BatchesOk lists rpc s)
    (h : BatchMoves lists rpc s label s') : BatchesOk lists rpc s' := by
  cases h with
  | fetchBlocks pageLimit bufferBlocks =>
    refine ⟨hi.events, fun batch hbatch => ?_⟩
    rcases List.mem_append.1 hbatch with hbatch | hbatch
    · exact hi.batches batch hbatch
    · rw [List.mem_singleton.1 hbatch]
      exact batchOk_fetchBlocks s.events pageLimit bufferBlocks
  | @task b k label batch task events' state' hbatch htask hmoves =>
    have hok := hi.batches batch (List.mem_of_getElem? hbatch)
    have hstate := (hok.tasks task (List.mem_of_getElem? htask)).moves hmoves
    refine ⟨?_, forall_mem_replaced b (fun other hother => (hi.batches other hother).grows hmoves.grows)
      ((hok.grows hmoves.grows).setTask htask hmoves.result_eq_none hstate)⟩
    rcases hmoves.events_step with rfl | hstart
    · exact hi.events
    · exact served_step hi.events (moves_of_step hstart)
  | events hmoves =>
    exact ⟨served_step hi.events hmoves,
      fun batch hbatch => (hi.batches batch hbatch).grows (grows_of_moves hmoves)⟩

theorem batchesOk_init (log : EventLog) : BatchesOk lists rpc (BatchSystem.init Filter log) :=
  ⟨served_init log, fun batch h => by cases h⟩

theorem batchesOk_of_run {log : EventLog} {s : BatchSystem Filter} {labels : List (BatchLabel Filter)}
    (h : run (batchStep lists rpc) (BatchSystem.init Filter log) labels = some s) : BatchesOk lists rpc s :=
  Runs.run_invariant (fun _ _ _ hi hs => batchesOk_step hi (batchMoves_of_step hs)) (batchesOk_init log) h

theorem wholePages_start (events : EventsSystem Filter) (sequence : Nat) (limit : Option ℕ+) :
    WholePages events (.start sequence [] limit) := rfl

theorem consistent_batchStep {s s' : BatchSystem Filter} {label : BatchLabel Filter} (hserved : Served rpc s.events)
    (hi : Consistent s.events) (hpages : BatchWholePages s label) (h : BatchMoves lists rpc s label s') :
    Consistent s'.events := by
  cases h with
  | fetchBlocks => exact hi
  | task hbatch htask hmoves =>
    rcases hmoves.events_step with rfl | hstart
    · exact hi
    · exact consistent_step hserved hi (wholePages_start s.events _ _) (moves_of_step hstart)
  | events hmoves => exact consistent_step hserved hi hpages hmoves

theorem consistent_of_batchRun {log : EventLog} {s : BatchSystem Filter} {labels : List (BatchLabel Filter)}
    (h : run (batchStep lists rpc) (BatchSystem.init Filter log) labels = some s)
    (hpages : AllSteps (batchStep lists rpc) BatchWholePages (BatchSystem.init Filter log) labels) :
    Consistent s.events := by
  have hkeep : ∀ (t : BatchSystem Filter) (label : BatchLabel Filter) (t' : BatchSystem Filter),
      BatchesOk lists rpc t ∧ Consistent t.events → BatchWholePages t label → batchStep lists rpc t label = some t' →
      BatchesOk lists rpc t' ∧ Consistent t'.events := fun t label t' hi hok hs =>
    ⟨batchesOk_step hi.1 (batchMoves_of_step hs), consistent_batchStep hi.1.events hi.2 hok (batchMoves_of_step hs)⟩
  exact (Runs.run_invariant_of hkeep ⟨batchesOk_init log, consistent_init log⟩ hpages h).2

/-! ## What a batch resolves with -/

theorem ledgerResult_held {log : EventLog} {sequence : Nat} {ledger : LedgerRecord}
    (hledger : lists.ledger sequence = .ok ledger)
    (hheld : hasInvokeHostFunctionOp (lists.operations sequence) = true → sequence ≤ log.newestLedger) :
    ledgerResult lists log sequence = .ok (heldRecords lists log ledger sequence).block := by
  unfold ledgerResult eventsResult
  rw [hledger]
  by_cases hgate : hasInvokeHostFunctionOp (lists.operations sequence) = true
  · simp [hgate, hheld hgate, LedgerRecords.block, heldRecords]
  · simp [hgate, LedgerRecords.block, heldRecords]

theorem ledgerResult_eq_ok {log : EventLog} {sequence : Nat} {block : StellarBlock}
    (h : ledgerResult lists log sequence = .ok block) :
    ∃ ledger, lists.ledger sequence = .ok ledger ∧
      (hasInvokeHostFunctionOp (lists.operations sequence) = true → sequence ≤ log.newestLedger) ∧
      block = (heldRecords lists log ledger sequence).block := by
  unfold ledgerResult at h
  split at h
  · cases h
  rename_i ledger hledger
  have hheld : hasInvokeHostFunctionOp (lists.operations sequence) = true → sequence ≤ log.newestLedger := by
    intro hgate
    by_contra hlater
    simp only [eventsResult, hgate, hlater, if_true, if_false] at h
    cases h
  refine ⟨ledger, hledger, hheld, ?_⟩
  have hresult := ledgerResult_held hledger hheld
  unfold ledgerResult at hresult
  rw [hledger] at hresult
  exact Except.ok.inj (h.symm.trans hresult)

/-- **A wrapped block is its ledger's**, where calls of `getEvents` resolve with whole ledgers. -/
theorem TaskOk.result_eq_ok {events : EventsSystem Filter} {sequence : Nat} {pageLimit : ℕ+} {state : TaskState}
    {block : StellarBlock} (h : TaskOk lists events sequence state) (hconsistent : Consistent events)
    (hresult : LedgerTask.result ⟨sequence, pageLimit, state⟩ = some (.ok block)) :
    ledgerResult lists events.log sequence = .ok block := by
  cases h with
  | fetching => cases hresult
  | awaitingEvents => cases hresult
  | @wrapped ledger sorobanEvents hledger hevents =>
    cases hresult
    by_cases hgate : hasInvokeHostFunctionOp (lists.operations sequence) = true
    · rw [Handed, if_pos hgate] at hevents
      obtain ⟨response, hresolved, rfl⟩ := hevents
      cases hconsistent.calls _ hresolved with
      | resolved hclosed hall =>
        rw [ledgerResult_held hledger (fun _ => hclosed)]
        simp [LedgerRecords.block, heldRecords, hgate, hall]
    · rw [Handed, if_neg hgate] at hevents
      rw [ledgerResult_held hledger (fun h => absurd h hgate), hevents]
      simp [LedgerRecords.block, heldRecords, hgate]
  | rejected => cases hresult

/-- A block is what a sequential run fetches for a ledger, from an empty cache, however it is paged. -/
def Sequentially (lists : HorizonLists) (log : EventLog) (rpc : RpcFilters Filter) (sequence : Nat)
    (block : StellarBlock) : Prop :=
  ∀ (cuts : PageCuts Filter) (pageLimit : ℕ+) (fuel : Nat), pagesOf lists log sequence < fuel →
    (fetchAndWrapLedger (pagedApi lists log rpc cuts pageLimit) fuel sequence ∅).map Prod.fst = some (.ok block)

theorem forall₂_of_map_eq_map {α β γ : Type} {f : α → γ} {g : β → γ} : ∀ {as : List α} {bs : List β},
    as.map f = bs.map g → List.Forall₂ (fun a b => a ∈ as ∧ f a = g b) as bs
  | [], [], _ => List.Forall₂.nil
  | [], _ :: _, h => by cases h
  | _ :: _, [], h => by cases h
  | a :: as, b :: bs, h => by
    obtain ⟨hab, hrest⟩ := List.cons.inj h
    exact List.Forall₂.cons ⟨List.mem_cons_self, hab⟩
      ((forall₂_of_map_eq_map hrest).imp (fun _ _ h => ⟨List.mem_cons_of_mem a h.1, h.2⟩))

theorem BatchOk.sequentially {events : EventsSystem Filter} {batch : Batch} (h : BatchOk lists events batch)
    (hconsistent : Consistent events) (rpc : RpcFilters Filter) {blocks : List StellarBlock}
    (hblocks : batch.outcome = some (.ok blocks)) :
    List.Forall₂ (Sequentially lists events.log rpc) batch.bufferBlocks blocks := by
  rw [← h.sequences, List.forall₂_map_left_iff]
  refine (forall₂_of_map_eq_map (h.outcome.fulfilled blocks hblocks)).imp ?_
  rintro task block ⟨htask, hresult⟩ cuts pageLimit fuel hfuel
  rw [fetchAndWrapLedger_paged hfuel, (h.tasks task htask).result_eq_ok hconsistent hresult]

/-- **A batch that resolves, resolves with the blocks a sequential run fetches for its heights, in their order**, in
every interleaving of batches, whole pages, failures, other calls and new ledgers. -/
theorem batch_resolved {log : EventLog} {s : BatchSystem Filter} {labels : List (BatchLabel Filter)}
    (h : run (batchStep lists rpc) (BatchSystem.init Filter log) labels = some s)
    (hpages : AllSteps (batchStep lists rpc) BatchWholePages (BatchSystem.init Filter log) labels) {batch : Batch}
    (hbatch : batch ∈ s.batches) {blocks : List StellarBlock} (hblocks : batch.outcome = some (.ok blocks)) :
    List.Forall₂ (Sequentially lists s.events.log rpc) batch.bufferBlocks blocks :=
  ((batchesOk_of_run h).batches batch hbatch).sequentially (consistent_of_batchRun h hpages) rpc hblocks

end Safety

/-! ## A run -/

def oneRecord : ℕ+ := ⟨1, Nat.zero_lt_one⟩

/-- The calls to Horizon for one ledger of a batch: each of its lists comes in two pages, the second one empty. -/
def horizonLabels (b k : Nat) : List (BatchLabel Unit) :=
  [.task b k (.operations oneRecord), .task b k (.transactions sampleLimit), .task b k .ledger,
    .task b k (.effects sampleLimit), .task b k (.transactions sampleLimit), .task b k (.operations oneRecord),
    .task b k (.effects sampleLimit), .task b k .gate]

/-- The first batch resolves after the second, of the same ledger, has failed. -/
def resolvingLabels : List (BatchLabel Unit) :=
  [.fetchBlocks sampleLimit [7], .fetchBlocks oneRecord [7]] ++ horizonLabels 0 0 ++
    [.task 1 0 .ledger, .events (.page 0 sampleLimit), .task 1 0 (.horizonFails ⟨"timeout"⟩),
      .events (.page 0 sampleLimit), .events (.finish 0), .task 0 0 .resume]

def batchRun (lists : HorizonLists) (labels : List (BatchLabel Unit)) : BatchSystem Unit :=
  (run (batchStep lists unfiltered) (BatchSystem.init Unit invokingLog) labels).getD
    (BatchSystem.init Unit invokingLog)

theorem batch_resolved_invoking : ∃ batch ∈ (batchRun invokingLists resolvingLabels).batches,
    batch.outcome = some (.ok [invokingRecords.block]) ∧
      List.Forall₂ (Sequentially invokingLists (batchRun invokingLists resolvingLabels).events.log unfiltered)
        batch.bufferBlocks [invokingRecords.block] := by
  have hrun : run (batchStep invokingLists unfiltered) (BatchSystem.init Unit invokingLog) resolvingLabels =
      some (batchRun invokingLists resolvingLabels) := rfl
  have hpages : AllSteps (batchStep invokingLists unfiltered) BatchWholePages (BatchSystem.init Unit invokingLog)
      resolvingLabels := by decide +kernel
  obtain ⟨batch, hbatch, hblocks⟩ : ∃ batch ∈ (batchRun invokingLists resolvingLabels).batches,
      batch.outcome = some (.ok [invokingRecords.block]) := ⟨_, List.mem_of_getElem? (i := 0) rfl, rfl⟩
  exact ⟨batch, hbatch, hblocks, batch_resolved hrun hpages hbatch hblocks⟩

end SubqlStellar
