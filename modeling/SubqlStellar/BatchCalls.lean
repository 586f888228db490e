import SubqlStellar.BlockPaging
import SubqlStellar.EventsCalls
import SubqlStellar.Promises
/-!
# BatchCalls — batches of blocks fetched concurrently

`fetchBlocks` fetches the blocks of a batch together: each of its calls of `fetchAndWrapLedger` reads its ledger and
three page loops from Horizon, in any order, then (behind the gate) calls `getEvents` on the Soroban server all apis
share, and wraps what came.  Any number of batches is under way, of apis with page limits of their own; their calls
interleave with each other, with other callers of `getEvents` (of any filters and limits), with failures, and with
ledgers that the RPC server closes or drops.  A batch that is rejected leaves its other calls running.

`TaskOk` says what a call has read; `BatchesOk` holds in every state a run reaches (`batchesOk_of_run`).
-/
namespace SubqlStellar

open Promises (settle)
open Runs (run)

/-- A page loop, between two of its calls. -/
inductive PageLoop (α : Type) where
  | calling (cursor : Option Nat) (records : List α)
  | collected (records : List α)

/-- The loop's next page: the next `cut` of the records the server holds, or none of them. -/
def PageLoop.receive {α : Type} (held : List α) (cut : ℕ+) : PageLoop α → Option (PageLoop α)
  | .calling cursor records =>
    let page := pageOf held (fun _ => cut) cursor
    if page.records.length ≠ 0 then some (.calling (some page.next) (records ++ page.records))
    else some (.collected records)
  | .collected _ => none

inductive TaskState where
  | fetching (ledger : Option LedgerRecord) (transactions : PageLoop TransactionRecord)
      (operations : PageLoop OperationRecord) (effects : PageLoop EffectRecord)
  | awaitingEvents (ledger : LedgerRecord) (transactions : List TransactionRecord) (operations : List OperationRecord)
      (effects : List EffectRecord) (call : Nat)
  | wrapped (block : StellarBlock)
  | rejected (e : JsError)

structure LedgerTask where
  sequence : Nat
  pageLimit : ℕ+
  state : TaskState

def LedgerTask.start (pageLimit : ℕ+) (sequence : Nat) : LedgerTask :=
  ⟨sequence, pageLimit, .fetching none (.calling none []) (.calling none []) (.calling none [])⟩

def LedgerTask.result (task : LedgerTask) : Option (Except JsError StellarBlock) :=
  match task.state with
  | .wrapped block => some (.ok block)
  | .rejected e    => some (.error e)
  | _ => none

structure Batch where
  bufferBlocks : List Nat
  tasks : List LedgerTask
  outcome : Option (Except JsError (List StellarBlock))

def fetchBlocks (pageLimit : ℕ+) (bufferBlocks : List Nat) : Batch :=
  let tasks := bufferBlocks.map (LedgerTask.start pageLimit)
  ⟨bufferBlocks, tasks, settle none (tasks.map LedgerTask.result)⟩

def Batch.setTask (batch : Batch) (k : Nat) (task : LedgerTask) : Batch :=
  let tasks := batch.tasks.set k task
  { batch with tasks, outcome := settle batch.outcome (tasks.map LedgerTask.result) }

structure BatchSystem (Filter : Type) where
  events : EventsSystem Filter
  batches : List Batch

def BatchSystem.init (Filter : Type) (log : EventLog) : BatchSystem Filter := ⟨EventsSystem.init Filter log, []⟩

inductive TaskLabel where
  | ledger
  | transactions (cut : ℕ+)
  | operations (cut : ℕ+)
  | effects (cut : ℕ+)
  | horizonFails (e : JsError)
  | gate
  | resume
  | latestLedgerFails (e : JsError)

inductive BatchLabel (Filter : Type) where
  | fetchBlocks (pageLimit : ℕ+) (bufferBlocks : List Nat)
  | task (b k : Nat) (label : TaskLabel)
  | events (label : Label Filter)

/-- What `fetchAndWrapLedger` throws for an error of its events call, with the server's latest ledger at hand. -/
def explained (sequence latestLedger : Nat) (e : JsError) : JsError :=
  if e.message = "start is after newest ledger" then startsAfterNewest sequence latestLedger
  else if e.message = "start is before oldest ledger" then startsBeforeOldest sequence
  else e

section Step

variable {Filter : Type} (lists : HorizonLists) (rpc : RpcFilters Filter)

def taskStep (events : EventsSystem Filter) (task : LedgerTask) : TaskLabel → Option (EventsSystem Filter × LedgerTask)
  | .ledger =>
    match task.state with
    | .fetching none transactions operations effects =>
      match lists.ledger task.sequence with
      | .ok ledger => some (events, { task with state := .fetching (some ledger) transactions operations effects })
      | .error e   => some (events, { task with state := .rejected e })
    | _ => none
  | .transactions cut =>
    match task.state with
    | .fetching ledger transactions operations effects =>
      (transactions.receive (lists.transactions task.sequence) cut).map (fun transactions =>
        (events, { task with state := .fetching ledger transactions operations effects }))
    | _ => none
  | .operations cut =>
    match task.state with
    | .fetching ledger transactions operations effects =>
      (operations.receive (lists.operations task.sequence) cut).map (fun operations =>
        (events, { task with state := .fetching ledger transactions operations effects }))
    | _ => none
  | .effects cut =>
    match task.state with
    | .fetching ledger transactions operations effects =>
      (effects.receive (lists.effects task.sequence) cut).map (fun effects =>
        (events, { task with state := .fetching ledger transactions operations effects }))
    | _ => none
  | .horizonFails e =>
    match task.state with
    | .fetching (some _) (.collected _) (.collected _) (.collected _) => none
    | .fetching _ _ _ _ => some (events, { task with state := .rejected e })
    | _ => none
  | .gate =>
    match task.state with
    | .fetching (some ledger) (.collected transactions) (.collected operations) (.collected effects) =>
      if hasInvokeHostFunctionOp operations then
        (step rpc events (.start task.sequence [] (some task.pageLimit))).map (fun events' =>
          (events', { task with
            state := .awaitingEvents ledger transactions operations effects events.calls.length }))
      else some (events, { task with state := .wrapped (assembleBlock ledger transactions operations effects []) })
    | _ => none
  | .resume =>
    match task.state with
    | .awaitingEvents ledger transactions operations effects call =>
      match events.calls[call]? with
      | some (.resolved _ response) =>
        some (events,
          { task with state := .wrapped (assembleBlock ledger transactions operations effects response.events) })
      | some (.failed _ e) =>
        some (events, { task with state := .rejected (explained task.sequence events.log.newestLedger e) })
      | _ => none
    | _ => none
  | .latestLedgerFails e =>
    match task.state with
    | .awaitingEvents _ _ _ _ call =>
      match events.calls[call]? with
      | some (.failed _ ⟨"start is after newest ledger"⟩) => some (events, { task with state := .rejected e })
      | _ => none
    | _ => none

def batchStep (s : BatchSystem Filter) : BatchLabel Filter → Option (BatchSystem Filter)
  | .fetchBlocks pageLimit bufferBlocks =>
    some { s with batches := s.batches ++ [fetchBlocks pageLimit bufferBlocks] }
  | .task b k label =>
    match s.batches[b]? with
    | none => none
    | some batch =>
      match batch.tasks[k]? with
      | none => none
      | some task => (taskStep lists rpc s.events task label).map (fun (events, task) =>
          ⟨events, s.batches.set b (batch.setTask k task)⟩)
  | .events label => (step rpc s.events label).map (fun events => { s with events })

/-- **Whole pages**, for the calls of `getEvents`: those of the batches themselves pass no filters. -/
def BatchWholePages (s : BatchSystem Filter) : BatchLabel Filter → Prop
  | .events label => WholePages s.events label
  | _             => True

instance (s : BatchSystem Filter) : DecidablePred (BatchWholePages s)
  | .events label => inferInstanceAs (Decidable (WholePages s.events label))
  | .fetchBlocks _ _ | .task _ _ _ => isTrue trivial

end Step

theorem explainEventsError_explained {Filter : Type} {api : StellarApi Filter} {client : SorobanClient Filter}
    {latestLedger : Nat} (hclient : api._sorobanClient = some client)
    (hlatest : client.getLatestLedger = .ok latestLedger) (sequence : Nat) (e : JsError) (eventsCache : EventsCache) :
    explainEventsError api sequence e eventsCache = some (.error (explained sequence latestLedger e), eventsCache) := by
  unfold explainEventsError explained
  by_cases hafter : e.message = "start is after newest ledger"
  · have hget : ApiM.ofExcept client.getLatestLedger eventsCache = some (.ok latestLedger, eventsCache) :=
      ApiM.ofExcept_eq_ok.2 ⟨hlatest, rfl⟩
    rw [if_pos hafter, if_pos hafter, ApiM.bind_of_ok (sorobanClient_eq_ok.2 ⟨hclient, rfl⟩), ApiM.bind_of_ok hget]
    rfl
  · rw [if_neg hafter, if_neg hafter]
    by_cases hbefore : e.message = "start is before oldest ledger"
    · rw [if_pos hbefore, if_pos hbefore]
      rfl
    · rw [if_neg hbefore, if_neg hbefore]
      rfl

section Moves

variable {Filter : Type} (lists : HorizonLists) (rpc : RpcFilters Filter)

inductive TaskMoves (events : EventsSystem Filter) (sequence : Nat) (pageLimit : ℕ+) :
    TaskState → TaskLabel → EventsSystem Filter → TaskState → Prop
  | ledger {ledger : LedgerRecord} {transactions : PageLoop TransactionRecord} {operations : PageLoop OperationRecord}
      {effects : PageLoop EffectRecord} (hledger : lists.ledger sequence = .ok ledger) :
      TaskMoves events sequence pageLimit (.fetching none transactions operations effects) .ledger events
        (.fetching (some ledger) transactions operations effects)
  | noLedger {transactions : PageLoop TransactionRecord} {operations : PageLoop OperationRecord}
      {effects : PageLoop EffectRecord} {e : JsError} (hledger : lists.ledger sequence = .error e) :
      TaskMoves events sequence pageLimit (.fetching none transactions operations effects) .ledger events (.rejected e)
  | transactions {ledger : Option LedgerRecord} {transactions transactions' : PageLoop TransactionRecord}
      {operations : PageLoop OperationRecord} {effects : PageLoop EffectRecord} {cut : ℕ+}
      (hreceive : transactions.receive (lists.transactions sequence) cut = some transactions') :
      TaskMoves events sequence pageLimit (.fetching ledger transactions operations effects) (.transactions cut) events
        (.fetching ledger transactions' operations effects)
  | operations {ledger : Option LedgerRecord} {transactions : PageLoop TransactionRecord}
      {operations operations' : PageLoop OperationRecord} {effects : PageLoop EffectRecord} {cut : ℕ+}
      (hreceive : operations.receive (lists.operations sequence) cut = some operations') :
      TaskMoves events sequence pageLimit (.fetching ledger transactions operations effects) (.operations cut) events
        (.fetching ledger transactions operations' effects)
  | effects {ledger : Option LedgerRecord} {transactions : PageLoop TransactionRecord}
      {operations : PageLoop OperationRecord} {effects effects' : PageLoop EffectRecord} {cut : ℕ+}
      (hreceive : effects.receive (lists.effects sequence) cut = some effects') :
      TaskMoves events sequence pageLimit (.fetching ledger transactions operations effects) (.effects cut) events
        (.fetching ledger transactions operations effects')
  | horizonFails {ledger : Option LedgerRecord} {transactions : PageLoop TransactionRecord}
      {operations : PageLoop OperationRecord} {effects : PageLoop EffectRecord} {e : JsError} :
      TaskMoves events sequence pageLimit (.fetching ledger transactions operations effects) (.horizonFails e) events
        (.rejected e)
  | call {ledger : LedgerRecord} {transactions : List TransactionRecord} {operations : List OperationRecord}
      {effects : List EffectRecord} {events' : EventsSystem Filter}
      (hgate : hasInvokeHostFunctionOp operations = true)
      (hstart : step rpc events (.start sequence [] (some pageLimit)) = some events') :
      TaskMoves events sequence pageLimit
        (.fetching (some ledger) (.collected transactions) (.collected operations) (.collected effects)) .gate events'
        (.awaitingEvents ledger transactions operations effects events.calls.length)
  | noCall {ledger : LedgerRecord} {transactions : List TransactionRecord} {operations : List OperationRecord}
      {effects : List EffectRecord} (hgate : hasInvokeHostFunctionOp operations = false) :
      TaskMoves events sequence pageLimit
        (.fetching (some ledger) (.collected transactions) (.collected operations) (.collected effects)) .gate events
        (.wrapped (assembleBlock ledger transactions operations effects []))
  | resolved {ledger : LedgerRecord} {transactions : List TransactionRecord} {operations : List OperationRecord}
      {effects : List EffectRecord} {call L : Nat} {response : CachedEventsResponse}
      (hcall : events.calls[call]? = some (.resolved L response)) :
      TaskMoves events sequence pageLimit (.awaitingEvents ledger transactions operations effects call) .resume events
        (.wrapped (assembleBlock ledger transactions operations effects response.events))
  | failed {ledger : LedgerRecord} {transactions : List TransactionRecord} {operations : List OperationRecord}
      {effects : List EffectRecord} {call L : Nat} {e : JsError} (hcall : events.calls[call]? = some (.failed L e)) :
      TaskMoves events sequence pageLimit (.awaitingEvents ledger transactions operations effects call) .resume events
        (.rejected (explained sequence events.log.newestLedger e))
  | latestLedgerFails {ledger : LedgerRecord} {transactions : List TransactionRecord}
      {operations : List OperationRecord} {effects : List EffectRecord} {call L : Nat} {e : JsError}
      (hcall : events.calls[call]? = some (.failed L ⟨"start is after newest ledger"⟩)) :
      TaskMoves events sequence pageLimit (.awaitingEvents ledger transactions operations effects call)
        (.latestLedgerFails e) events (.rejected e)

variable {lists rpc}

theorem taskMoves_of_step {events events' : EventsSystem Filter} {task task' : LedgerTask} {label : TaskLabel}
    (h : taskStep lists rpc events task label = some (events', task')) :
    ∃ state', task' = { task with state := state' } ∧
      TaskMoves lists rpc events task.sequence task.pageLimit task.state label events' state' := by
  obtain ⟨sequence, pageLimit, state⟩ := task
  cases label with
  | ledger =>
    simp only [taskStep] at h
    split at h
    · split at h
      · rename_i hledger
        cases h
        exact ⟨_, rfl, TaskMoves.ledger hledger⟩
      · rename_i hledger
        cases h
        exact ⟨_, rfl, TaskMoves.noLedger hledger⟩
    · cases h
  | transactions cut =>
    simp only [taskStep] at h
    split at h
    · obtain ⟨transactions', hreceive, hmoved⟩ := Option.map_eq_some_iff.1 h
      cases hmoved
      exact ⟨_, rfl, TaskMoves.transactions hreceive⟩
    · cases h
  | operations cut =>
    simp only [taskStep] at h
    split at h
    · obtain ⟨operations', hreceive, hmoved⟩ := Option.map_eq_some_iff.1 h
      cases hmoved
      exact ⟨_, rfl, TaskMoves.operations hreceive⟩
    · cases h
  | effects cut =>
    simp only [taskStep] at h
    split at h
    · obtain ⟨effects', hreceive, hmoved⟩ := Option.map_eq_some_iff.1 h
      cases hmoved
      exact ⟨_, rfl, TaskMoves.effects hreceive⟩
    · cases h
  | horizonFails e =>
    simp only [taskStep] at h
    split at h
    · cases h
    · cases h
      exact ⟨_, rfl, TaskMoves.horizonFails⟩
    · cases h
  | gate =>
    simp only [taskStep] at h
    split at h
    · split at h
      · rename_i hgate
        obtain ⟨events', hstart, hmoved⟩ := Option.map_eq_some_iff.1 h
        cases hmoved
        exact ⟨_, rfl, TaskMoves.call hgate hstart⟩
      · rename_i hgate
        cases h
        exact ⟨_, rfl, TaskMoves.noCall (Bool.eq_false_iff.2 hgate)⟩
    · cases h
  | resume =>
    simp only [taskStep] at h
    split at h
    · split at h
      · rename_i hcall
        cases h
        exact ⟨_, rfl, TaskMoves.resolved hcall⟩
      · rename_i hcall
        cases h
        exact ⟨_, rfl, TaskMoves.failed hcall⟩
      · cases h
    · cases h
  | latestLedgerFails e =>
    simp only [taskStep] at h
    split at h
    · split at h
      · rename_i hcall
        cases h
        exact ⟨_, rfl, TaskMoves.latestLedgerFails hcall⟩
      · cases h
    · cases h

theorem TaskMoves.result_eq_none {events events' : EventsSystem Filter} {sequence : Nat} {pageLimit : ℕ+}
    {state state' : TaskState} {label : TaskLabel}
    (h : TaskMoves lists rpc events sequence pageLimit state label events' state') :
    LedgerTask.result ⟨sequence, pageLimit, state⟩ = none := by
  cases h <;> rfl

inductive BatchMoves (lists : HorizonLists) (rpc : RpcFilters Filter) (s : BatchSystem Filter) :
    BatchLabel Filter → BatchSystem Filter → Prop
  | fetchBlocks (pageLimit : ℕ+) (bufferBlocks : List Nat) :
      BatchMoves lists rpc s (.fetchBlocks pageLimit bufferBlocks)
        { s with batches := s.batches ++ [SubqlStellar.fetchBlocks pageLimit bufferBlocks] }
  | task {b k : Nat} {label : TaskLabel} {batch : Batch} {task : LedgerTask} {events' : EventsSystem Filter}
      {state' : TaskState} (hbatch : s.batches[b]? = some batch) (htask : batch.tasks[k]? = some task)
      (hmoves : TaskMoves lists rpc s.events task.sequence task.pageLimit task.state label events' state') :
      BatchMoves lists rpc s (.task b k label)
        ⟨events', s.batches.set b (batch.setTask k { task with state := state' })⟩
  | events {label : Label Filter} {events' : EventsSystem Filter} (hmoves : Moves rpc s.events label events') :
      BatchMoves lists rpc s (.events label) { s with events := events' }

theorem batchMoves_of_step {s s' : BatchSystem Filter} {label : BatchLabel Filter}
    (h : batchStep lists rpc s label = some s') : BatchMoves lists rpc s label s' := by
  cases label with
  | fetchBlocks pageLimit bufferBlocks =>
    cases h
    exact BatchMoves.fetchBlocks pageLimit bufferBlocks
  | task b k label =>
    simp only [batchStep] at h
    split at h
    · cases h
    rename_i batch hbatch
    split at h
    · cases h
    rename_i task htask
    obtain ⟨⟨events', task'⟩, hstep, hmoved⟩ := Option.map_eq_some_iff.1 h
    cases hmoved
    obtain ⟨state', rfl, hmoves⟩ := taskMoves_of_step hstep
    exact BatchMoves.task hbatch htask hmoves
  | events label =>
    simp only [batchStep] at h
    obtain ⟨events', hstep, hmoved⟩ := Option.map_eq_some_iff.1 h
    cases hmoved
    exact BatchMoves.events (moves_of_step hstep)

end Moves

end SubqlStellar
