import SubqlStellar.BatchBlocks
/-!
# BatchProgress — every batch settles

The steps of the batches under way and of the calls of `getEvents` give up some of a measure (`work`): the pages still
to come, and a few steps for each call.  So they are few, in whatever order they come, and where none is left every
batch has settled (`batches_settle`).  Where no server fails, a batch is rejected only for a ledger that is not to be
had: one that Horizon refuses, or one whose events the RPC server has not closed yet or has dropped (`batch_rejected`).
Any other batch resolves (`batch_completes`).
-/
namespace SubqlStellar

open Keyed (total total_append total_set)
open Runs (run AllSteps)

section Progress

variable {Filter : Type} {lists : HorizonLists} {rpc : RpcFilters Filter}

/-- A step of a batch, or of a call of `getEvents`. -/
def Own : BatchLabel Filter → Prop
  | .task _ _ _ => True
  | .events (.page _ _) | .events (.fail _ _) | .events (.finish _) => True
  | _ => False

def FaultFree : BatchLabel Filter → Prop
  | .task _ _ (.horizonFails _) | .task _ _ (.latestLedgerFails _) | .events (.fail _ _) => False
  | _ => True

/-! ## The measure -/

def PageLoop.work {α : Type} (held : List α) : PageLoop α → Nat
  | .calling cursor _ => held.length - cursor.getD 0 + 1
  | .collected _      => 0

/-- What is left of a call of `getEvents`: a page for each event still to come, the last page, and to finish. -/
def callWork (log : EventLog) : Call Filter → Nat
  | .fetching sequence _ accEvents => (ledgerEvents sequence log.events).length - accEvents.length + 2
  | .fetched _ _ _ => 1
  | .resolved _ _  => 0
  | .failed _ _    => 0

def taskWork (lists : HorizonLists) (log : EventLog) (sequence : Nat) : TaskState → Nat
  | .fetching ledger transactions operations effects =>
    (if ledger = none then 1 else 0) + transactions.work (lists.transactions sequence) +
      operations.work (lists.operations sequence) + effects.work (lists.effects sequence) +
      (ledgerEvents sequence log.events).length + 4
  | .awaitingEvents _ _ _ _ _ => 1
  | .wrapped _  => 0
  | .rejected _ => 0

def callsWork (log : EventLog) (calls : List (Call Filter)) : Nat := total (callWork log) calls

def Batch.work (lists : HorizonLists) (log : EventLog) (batch : Batch) : Nat :=
  total (fun task : LedgerTask => taskWork lists log task.sequence task.state) batch.tasks

def work (lists : HorizonLists) (s : BatchSystem Filter) : Nat :=
  callsWork s.events.log s.events.calls + total (Batch.work lists s.events.log) s.batches

theorem LoopOk.receive_work {α : Type} {held : List α} {cut : ℕ+} {loop loop' : PageLoop α} (h : LoopOk held loop)
    (hreceive : loop.receive held cut = some loop') : loop'.work held < loop.work held := by
  cases h with
  | collected => cases hreceive
  | @calling cursor records hplace hrecords =>
    simp only [PageLoop.receive] at hreceive
    split at hreceive
    · rename_i hpage
      cases hreceive
      have hlength : (pageOf held (fun _ => cut) cursor).records.length ≤ held.length - cursor.getD 0 := by
        simp [pageOf]
      show held.length - (cursor.getD 0 + (pageOf held (fun _ => cut) cursor).records.length) + 1 <
        held.length - cursor.getD 0 + 1
      omega
    · cases hreceive
      exact Nat.succ_pos _

theorem callServed_length_le {log : EventLog} {sequence : Nat} {request : GetEventsRequest Filter}
    {accEvents : List SorobanRpcEventResponse} (h : CallServed rpc log (.fetching sequence request accEvents)) :
    accEvents.length ≤ (ledgerEvents sequence log.events).length := by
  cases h with
  | fetching _ _ hfetching =>
    have hview : (ledgerEvents sequence (log.view rpc request.filters)).Sublist (ledgerEvents sequence log.events) :=
      List.filter_sublist.filter _
    exact Nat.le_trans hfetching.length_le hview.length_le

theorem callsWork_set {log : EventLog} {calls : List (Call Filter)} {i : Nat} {call call' : Call Filter}
    (hcall : calls[i]? = some call) (hlt : callWork log call' < callWork log call) :
    callsWork log (calls.set i call') < callsWork log calls := by
  have h := total_set (callWork log) call' hcall
  unfold callsWork
  omega

theorem events_work {events events' : EventsSystem Filter} {label : Label Filter} (hi : Served rpc events)
    (hown : Own (.events label)) (h : Moves rpc events label events') :
    events'.log = events.log ∧ callsWork events.log events'.calls < callsWork events.log events.calls := by
  cases h with
  | hit => exact hown.elim
  | miss => exact hown.elim
  | close => exact hown.elim
  | prune => exact hown.elim
  | refused hcall hpage => exact ⟨rfl, callsWork_set hcall (Nat.succ_pos _)⟩
  | last hcall hpage hdone => exact ⟨rfl, callsWork_set hcall (by simp only [callWork]; omega)⟩
  | fail hcall => exact ⟨rfl, callsWork_set hcall (Nat.succ_pos _)⟩
  | finish hcall => exact ⟨rfl, callsWork_set hcall Nat.zero_lt_one⟩
  | @more i L cap request nextRequest accEvents newEvents response hcall hpage hnext =>
    refine ⟨rfl, callsWork_set hcall ?_⟩
    have hi' := served_step hi (Moves.more hcall hpage hnext)
    have hlt : i < events.calls.length := (List.getElem?_eq_some_iff.1 hcall).1
    have hnew : CallServed rpc events.log (.fetching L nextRequest newEvents) :=
      hi'.calls _ (List.mem_of_getElem? (List.getElem?_set_self hlt))
    have hle := callServed_length_le hnew
    have hgrow := onResponse_grows hnext
    simp only [callWork]
    omega

theorem start_work {events events' : EventsSystem Filter} {height : Nat} {filters : List Filter} {limit : Option ℕ+}
    (h : step rpc events (.start height filters limit) = some events') :
    events'.log = events.log ∧ callsWork events.log events'.calls ≤
      callsWork events.log events.calls + ((ledgerEvents height events.log.events).length + 2) := by
  cases moves_of_step h with
  | hit hentry =>
    refine ⟨rfl, ?_⟩
    show total (callWork events.log) (events.calls ++ [_]) ≤ _
    rw [total_append]
    exact Nat.add_le_add_left (Nat.zero_le _) _
  | miss hnone =>
    refine ⟨rfl, ?_⟩
    show total (callWork events.log) (events.calls ++ [_]) ≤ _
    rw [total_append]
    exact Nat.add_le_add_left (Nat.le_refl _) _

theorem TaskOk.work {events events' : EventsSystem Filter} {sequence : Nat} {pageLimit : ℕ+} {state state' : TaskState}
    {label : TaskLabel} (h : TaskOk lists events sequence state)
    (hm : TaskMoves lists rpc events sequence pageLimit state label events' state') :
    events'.log = events.log ∧ callsWork events.log events'.calls + taskWork lists events.log sequence state' <
      callsWork events.log events.calls + taskWork lists events.log sequence state := by
  cases hm with
  | ledger hledger =>
    refine ⟨rfl, ?_⟩
    simp [taskWork]
  | noLedger hledger =>
    refine ⟨rfl, ?_⟩
    simp [taskWork]
  | transactions hreceive =>
    cases h with
    | fetching hledger htransactions hoperations heffects =>
      have hlt := htransactions.receive_work hreceive
      refine ⟨rfl, ?_⟩
      simp only [taskWork]
      omega
  | operations hreceive =>
    cases h with
    | fetching hledger htransactions hoperations heffects =>
      have hlt := hoperations.receive_work hreceive
      refine ⟨rfl, ?_⟩
      simp only [taskWork]
      omega
  | effects hreceive =>
    cases h with
    | fetching hledger htransactions hoperations heffects =>
      have hlt := heffects.receive_work hreceive
      refine ⟨rfl, ?_⟩
      simp only [taskWork]
      omega
  | horizonFails =>
    refine ⟨rfl, ?_⟩
    simp [taskWork]
  | call hgate hstart =>
    obtain ⟨hlog, hle⟩ := start_work hstart
    refine ⟨hlog, ?_⟩
    simp only [taskWork]
    omega
  | noCall hgate =>
    refine ⟨rfl, ?_⟩
    simp [taskWork]
  | resolved hcall => exact ⟨rfl, Nat.lt_succ_self _⟩
  | failed hcall => exact ⟨rfl, Nat.lt_succ_self _⟩
  | latestLedgerFails hcall => exact ⟨rfl, Nat.lt_succ_self _⟩

/-- **Every step of a batch or of a call of `getEvents` gives up some of the measure.** -/
theorem work_lt {s s' : BatchSystem Filter} {label : BatchLabel Filter} (hi : BatchesOk lists rpc s) (hown : Own label)
    (h : BatchMoves lists rpc s label s') : work lists s' < work lists s := by
  cases h with
  | fetchBlocks => exact hown.elim
  | @task b k label batch task events' state' hbatch htask hmoves =>
    have hok := (hi.batches batch (List.mem_of_getElem? hbatch)).tasks task (List.mem_of_getElem? htask)
    obtain ⟨hlog, hlt⟩ := hok.work hmoves
    have hbatches := total_set (Batch.work lists s.events.log) (batch.setTask k { task with state := state' }) hbatch
    have htasks : (batch.setTask k { task with state := state' }).work lists s.events.log +
        taskWork lists s.events.log task.sequence task.state =
        batch.work lists s.events.log + taskWork lists s.events.log task.sequence state' :=
      total_set (fun task : LedgerTask => taskWork lists s.events.log task.sequence task.state) _ htask
    unfold SubqlStellar.work
    dsimp only
    rw [hlog]
    omega
  | events hmoves =>
    obtain ⟨hlog, hlt⟩ := events_work hi.events hown hmoves
    unfold SubqlStellar.work
    rw [hlog]
    exact Nat.add_lt_add_right hlt _

/-! ## No deadlock -/

theorem receive_calling {α : Type} (held : List α) (cut : ℕ+) (cursor : Option Nat) (records : List α) :
    ∃ loop', (PageLoop.calling cursor records).receive held cut = some loop' := by
  simp only [PageLoop.receive]
  split
  · exact ⟨_, rfl⟩
  · exact ⟨_, rfl⟩

theorem start_defined (events : EventsSystem Filter) (height : Nat) (filters : List Filter) (limit : Option ℕ+) :
    ∃ events', step rpc events (.start height filters limit) = some events' := by
  simp only [step]
  split
  · exact ⟨_, rfl⟩
  · exact ⟨_, rfl⟩
  · exact ⟨_, rfl⟩

def TaskMovesOn (lists : HorizonLists) (rpc : RpcFilters Filter) (events : EventsSystem Filter) (task : LedgerTask) :
    Prop :=
  ∃ label moved, (∀ b k, FaultFree (.task b k label : BatchLabel Filter)) ∧
    taskStep lists rpc events task label = some moved

theorem fetching_movesOn (events : EventsSystem Filter) (sequence : Nat) (pageLimit : ℕ+)
    (ledger : Option LedgerRecord) (transactions : PageLoop TransactionRecord) (operations : PageLoop OperationRecord)
    (effects : PageLoop EffectRecord) :
    TaskMovesOn lists rpc events ⟨sequence, pageLimit, .fetching ledger transactions operations effects⟩ := by
  cases ledger with
  | none =>
    cases hledger : lists.ledger sequence with
    | ok record => exact ⟨.ledger, _, fun _ _ => trivial, by simp only [taskStep, hledger]; rfl⟩
    | error e => exact ⟨.ledger, _, fun _ _ => trivial, by simp only [taskStep, hledger]; rfl⟩
  | some record =>
    cases transactions with
    | calling cursor records =>
      obtain ⟨loop', hreceive⟩ := receive_calling (lists.transactions sequence) 1 cursor records
      exact ⟨.transactions 1, _, fun _ _ => trivial, by simp only [taskStep, hreceive, Option.map_some]; rfl⟩
    | collected transactions =>
      cases operations with
      | calling cursor records =>
        obtain ⟨loop', hreceive⟩ := receive_calling (lists.operations sequence) 1 cursor records
        exact ⟨.operations 1, _, fun _ _ => trivial, by simp only [taskStep, hreceive, Option.map_some]; rfl⟩
      | collected operations =>
        cases effects with
        | calling cursor records =>
          obtain ⟨loop', hreceive⟩ := receive_calling (lists.effects sequence) 1 cursor records
          exact ⟨.effects 1, _, fun _ _ => trivial, by simp only [taskStep, hreceive, Option.map_some]; rfl⟩
        | collected effects =>
          by_cases hgate : hasInvokeHostFunctionOp operations = true
          · obtain ⟨events', hstart⟩ : ∃ events',
                step rpc events (.start sequence [] (some pageLimit)) = some events' :=
              start_defined events sequence [] (some pageLimit)
            exact ⟨.gate, _, fun _ _ => trivial, by simp only [taskStep, hgate, if_true, hstart, Option.map_some]; rfl⟩
          · exact ⟨.gate, _, fun _ _ => trivial, by simp only [taskStep, hgate]; rfl⟩

/-- **A call that has not settled moves on**, or the call of `getEvents` it awaits does. -/
theorem task_movesOn {events : EventsSystem Filter} {sequence : Nat} {pageLimit : ℕ+} {state : TaskState}
    (h : TaskOk lists events sequence state) (hwaiting : LedgerTask.result ⟨sequence, pageLimit, state⟩ = none) :
    TaskMovesOn lists rpc events ⟨sequence, pageLimit, state⟩ ∨
      ∃ label events', Own (.events label) ∧ FaultFree (.events label) ∧ step rpc events label = some events' := by
  cases h with
  | fetching => exact Or.inl (fetching_movesOn events sequence pageLimit _ _ _ _)
  | @awaitingEvents ledger i call hledger hgate hcall hsequence =>
    cases call with
    | fetching L request accEvents =>
      exact Or.inr ⟨.page i 1, _, trivial, trivial, by simp only [step, hcall]; rfl⟩
    | fetched L fetched eventsToCache =>
      exact Or.inr ⟨.finish i, _, trivial, trivial, by simp only [step, hcall]; rfl⟩
    | resolved L response => exact Or.inl ⟨.resume, _, fun _ _ => trivial, by simp only [taskStep, hcall]; rfl⟩
    | failed L e => exact Or.inl ⟨.resume, _, fun _ _ => trivial, by simp only [taskStep, hcall]; rfl⟩
  | wrapped => cases hwaiting
  | rejected => cases hwaiting

theorem batch_movesOn {s : BatchSystem Filter} (hi : BatchesOk lists rpc s) {batch : Batch} (hbatch : batch ∈ s.batches)
    (hwaiting : batch.outcome = none) :
    ∃ label s', (Own label ∧ FaultFree label) ∧ batchStep lists rpc s label = some s' := by
  obtain ⟨b, hb⟩ := List.mem_iff_getElem?.1 hbatch
  obtain ⟨task, htask, hresult⟩ := List.mem_map.1 ((hi.batches batch hbatch).outcome.waiting hwaiting)
  obtain ⟨k, hk⟩ := List.mem_iff_getElem?.1 htask
  have hok := (hi.batches batch hbatch).tasks task htask
  obtain ⟨label, moved, hfree, hmoved⟩ | ⟨label, events', hown, hfree, hmoved⟩ :
      TaskMovesOn lists rpc s.events task ∨ ∃ label events', Own (.events label) ∧ FaultFree (.events label) ∧
        step rpc s.events label = some events' := task_movesOn hok hresult
  · exact ⟨.task b k label, _, ⟨trivial, hfree b k⟩, by simp only [batchStep, hb, hk, hmoved, Option.map_some]; rfl⟩
  · exact ⟨.events label, _, ⟨hown, hfree⟩, by simp only [batchStep, hmoved, Option.map_some]; rfl⟩

/-- **Every batch settles**: from every reachable state the batches under way and the calls of `getEvents` take at most
`work` steps, failures included, in whatever order they come; where no step without a failure is left every batch has
settled, and such a state can be reached. -/
theorem batches_settle {log : EventLog} {s : BatchSystem Filter} {labels : List (BatchLabel Filter)}
    (h : run (batchStep lists rpc) (BatchSystem.init Filter log) labels = some s) :
    (∀ own s', (∀ label ∈ own, Own label) → run (batchStep lists rpc) s own = some s' → own.length ≤ work lists s) ∧
      ((∀ label, Own label → FaultFree label → batchStep lists rpc s label = none) →
        ∀ batch ∈ s.batches, batch.outcome ≠ none) ∧
      ∃ own s', (∀ label ∈ own, Own label ∧ FaultFree label) ∧ run (batchStep lists rpc) s own = some s' ∧
        ∀ batch ∈ s'.batches, batch.outcome ≠ none := by
  have hi : BatchesOk lists rpc s := batchesOk_of_run h
  have hkeep : ∀ t label t', BatchesOk lists rpc t → batchStep lists rpc t label = some t' → BatchesOk lists rpc t' :=
    fun _ _ _ hi hs => batchesOk_step hi (batchMoves_of_step hs)
  have hless : ∀ t label t', BatchesOk lists rpc t → Own label → batchStep lists rpc t label = some t' →
      work lists t' < work lists t := fun _ _ _ hi hown hs => work_lt hi hown (batchMoves_of_step hs)
  refine ⟨fun own s' hown hr => ?_, fun hstuck batch hbatch hwaiting => ?_, ?_⟩
  · have hle := Runs.run_length_le (fun t label t' hi _ => hkeep t label t' hi) hless hi hown hr
    omega
  · obtain ⟨label, s', ⟨hown, hfree⟩, hs⟩ : ∃ label s', (Own label ∧ FaultFree label) ∧
        batchStep lists rpc s label = some s' := batch_movesOn hi hbatch hwaiting
    cases (hstuck label hown hfree).symm.trans hs
  · refine Runs.exists_run_to (fun t label t' hi _ => hkeep t label t' hi)
      (fun t label t' hi hown => hless t label t' hi hown.1) (fun t hi hnot => ?_) s hi
    obtain ⟨batch, hbatch⟩ := not_forall.1 hnot
    obtain ⟨hmem, hwaiting⟩ := Classical.not_imp.1 hbatch
    exact batch_movesOn hi hmem (not_not.1 hwaiting)

/-! ## Why a batch is rejected -/

/-- What the RPC server refuses a page of ledger `L` with. -/
inductive Refused (newestLedger oldestLedger L : Nat) : JsError → Prop
  | afterNewest (hL : newestLedger < L) : Refused newestLedger oldestLedger L ⟨"start is after newest ledger"⟩
  | beforeOldest (hL : L < oldestLedger) : Refused newestLedger oldestLedger L ⟨"start is before oldest ledger"⟩

/-- Why a ledger is not to be had, in a run from `log` that has come to `events`, when no server fails. -/
inductive Unavailable (lists : HorizonLists) (log : EventLog) (events : EventsSystem Filter) (sequence : Nat) :
    JsError → Prop
  | noLedger {e : JsError} (hledger : lists.ledger sequence = .error e) : Unavailable lists log events sequence e
  | notClosed {n : Nat} (hgate : hasInvokeHostFunctionOp (lists.operations sequence) = true)
      (hsequence : log.newestLedger < sequence) (hfrom : log.newestLedger ≤ n) (hto : n ≤ events.log.newestLedger) :
      Unavailable lists log events sequence (startsAfterNewest sequence n)
  | dropped (hgate : hasInvokeHostFunctionOp (lists.operations sequence) = true)
      (hsequence : sequence < events.oldestLedger) :
      Unavailable lists log events sequence (startsBeforeOldest sequence)

structure Rejections (lists : HorizonLists) (log : EventLog) (s : BatchSystem Filter) : Prop where
  newestLedger : log.newestLedger ≤ s.events.log.newestLedger
  calls : ∀ L e, Call.failed L e ∈ s.events.calls → Refused log.newestLedger s.events.oldestLedger L e
  tasks : ∀ batch ∈ s.batches, ∀ task ∈ batch.tasks, ∀ e, task.state = .rejected e →
    Unavailable lists log s.events task.sequence e

theorem Refused.later {newestLedger newestLedger' oldestLedger oldestLedger' L : Nat} {e : JsError}
    (h : Refused newestLedger oldestLedger L e) (hnewest : newestLedger' ≤ newestLedger)
    (holdest : oldestLedger ≤ oldestLedger') : Refused newestLedger' oldestLedger' L e := by
  cases h with
  | afterNewest hL => exact Refused.afterNewest (Nat.lt_of_le_of_lt hnewest hL)
  | beforeOldest hL => exact Refused.beforeOldest (Nat.lt_of_lt_of_le hL holdest)

theorem Unavailable.later {log : EventLog} {events events' : EventsSystem Filter} {sequence : Nat} {e : JsError}
    (h : Unavailable lists log events sequence e) (hgrows : Grows events events') :
    Unavailable lists log events' sequence e := by
  cases h with
  | noLedger hledger => exact Unavailable.noLedger hledger
  | notClosed hgate hsequence hfrom hto =>
    exact Unavailable.notClosed hgate hsequence hfrom (Nat.le_trans hto hgrows.newestLedger)
  | dropped hgate hsequence =>
    exact Unavailable.dropped hgate (Nat.lt_of_lt_of_le hsequence hgrows.oldestLedger)

theorem getPage_refused {events : EventsSystem Filter} {L : Nat} {cap : ℕ+} {request : GetEventsRequest Filter}
    {accEvents : List SorobanRpcEventResponse} {e : JsError}
    (hcall : CallServed rpc events.log (.fetching L request accEvents))
    (h : events.getPage rpc L cap request = .error e) : Refused events.log.newestLedger events.oldestLedger L e := by
  unfold EventsSystem.getPage at h
  split at h
  · rename_i hbefore
    cases h
    exact Refused.beforeOldest hbefore
  unfold answer at h
  split at h
  · rename_i hafter
    cases h
    cases hcall with
    | fetching _ _ hfetching =>
      cases hfetching with
      | first => exact Refused.afterNewest hafter.2
      | later => exact absurd hafter.1 (Option.some_ne_none _)
  · cases h

theorem mem_of_mem_set_ne {α : Type} {l : List α} {a b : α} {i : Nat} (h : a ∈ l.set i b) (hne : b ≠ a) : a ∈ l := by
  rcases List.mem_or_eq_of_mem_set h with hmem | heq
  · exact hmem
  · exact absurd heq.symm hne

theorem mem_of_mem_concat_ne {α : Type} {l : List α} {a b : α} (h : a ∈ l ++ [b]) (hne : b ≠ a) : a ∈ l := by
  rcases List.mem_append.1 h with hmem | hmem
  · exact hmem
  · exact absurd (List.mem_singleton.1 hmem).symm hne

/-- **A call of `getEvents` fails without a failure of the server only where it is refused its ledger.** -/
theorem failed_step {events events' : EventsSystem Filter} {label : Label Filter} (hi : Served rpc events)
    (hfree : FaultFree (.events label)) (h : Moves rpc events label events') {L : Nat} {e : JsError}
    (hcall : Call.failed L e ∈ events'.calls) :
    Call.failed L e ∈ events.calls ∨ Refused events.log.newestLedger events.oldestLedger L e := by
  cases h with
  | hit => exact Or.inl (mem_of_mem_concat_ne hcall nofun)
  | miss => exact Or.inl (mem_of_mem_concat_ne hcall nofun)
  | last => exact Or.inl (mem_of_mem_set_ne hcall nofun)
  | more => exact Or.inl (mem_of_mem_set_ne hcall nofun)
  | fail => exact hfree.elim
  | finish => exact Or.inl (mem_of_mem_set_ne hcall nofun)
  | close => exact Or.inl hcall
  | prune => exact Or.inl hcall
  | refused hfetching hpage =>
    rcases List.mem_or_eq_of_mem_set hcall with hmem | heq
    · exact Or.inl hmem
    · cases heq
      exact Or.inr (getPage_refused (hi.calls _ (List.mem_of_getElem? hfetching)) hpage)

theorem rejections_events {log : EventLog} {s : BatchSystem Filter} {events' : EventsSystem Filter}
    {label : Label Filter} (hi : Served rpc s.events) (hr : Rejections lists log s) (hfree : FaultFree (.events label))
    (h : Moves rpc s.events label events') : Rejections lists log { s with events := events' } := by
  have hgrows := grows_of_moves h
  refine ⟨Nat.le_trans hr.newestLedger hgrows.newestLedger, fun L e hcall => ?_, fun batch hbatch task htask e he =>
    (hr.tasks batch hbatch task htask e he).later hgrows⟩
  rcases failed_step hi hfree h hcall with hold | hrefused
  · exact (hr.calls L e hold).later (Nat.le_refl _) hgrows.oldestLedger
  · exact hrefused.later hr.newestLedger hgrows.oldestLedger

theorem explained_of_refused {log : EventLog} {events : EventsSystem Filter} {sequence : Nat} {e : JsError}
    (hgate : hasInvokeHostFunctionOp (lists.operations sequence) = true)
    (hfrom : log.newestLedger ≤ events.log.newestLedger)
    (h : Refused log.newestLedger events.oldestLedger sequence e) :
    Unavailable lists log events sequence (explained sequence events.log.newestLedger e) := by
  cases h with
  | afterNewest hL => exact Unavailable.notClosed hgate hL hfrom (Nat.le_refl _)
  | beforeOldest hL =>
    have hexplained : explained sequence events.log.newestLedger ⟨"start is before oldest ledger"⟩ =
        startsBeforeOldest sequence := by simp [explained]
    rw [hexplained]
    exact Unavailable.dropped hgate hL

/-- **A call of `fetchAndWrapLedger` is rejected without a failure only where its ledger is not to be had.** -/
theorem rejected_moves {log : EventLog} {s : BatchSystem Filter} {events' : EventsSystem Filter} {sequence : Nat}
    {pageLimit : ℕ+} {state : TaskState} {label : TaskLabel} {e : JsError} {b k : Nat}
    (h : TaskOk lists s.events sequence state) (hr : Rejections lists log s)
    (hfree : FaultFree (.task b k label : BatchLabel Filter))
    (hm : TaskMoves lists rpc s.events sequence pageLimit state label events' (.rejected e)) :
    Unavailable lists log s.events sequence e := by
  cases hm with
  | noLedger hledger => exact Unavailable.noLedger hledger
  | horizonFails => exact hfree.elim
  | latestLedgerFails => exact hfree.elim
  | @failed _ _ _ _ _ L e hfailed =>
    cases h with
    | awaitingEvents hledger hgate hcall hsequence =>
      cases hfailed.symm.trans hcall
      have hL : L = sequence := hsequence
      subst hL
      exact explained_of_refused hgate hr.newestLedger (hr.calls L e (List.mem_of_getElem? hfailed))

theorem rejections_step {log : EventLog} {s s' : BatchSystem Filter} {label : BatchLabel Filter}
    (hi : BatchesOk lists rpc s) (hr : Rejections lists log s) (hfree : FaultFree label)
    (h : BatchMoves lists rpc s label s') : Rejections lists log s' := by
  cases h with
  | fetchBlocks pageLimit bufferBlocks =>
    refine ⟨hr.newestLedger, hr.calls, fun batch hbatch => ?_⟩
    rcases List.mem_append.1 hbatch with hbatch | hbatch
    · exact hr.tasks batch hbatch
    · rw [List.mem_singleton.1 hbatch]
      intro task htask e he
      obtain ⟨sequence, -, rfl⟩ := List.mem_map.1 htask
      cases he
  | @task b k label batch task events' state' hbatch htask hmoves =>
    have hevents : Rejections lists log { s with events := events' } := by
      rcases hmoves.events_step with rfl | hstart
      · exact hr
      · have hfree' : FaultFree (.events (.start task.sequence [] (some task.pageLimit)) : BatchLabel Filter) := trivial
        exact rejections_events hi.events hr hfree' (moves_of_step hstart)
    have hok := (hi.batches batch (List.mem_of_getElem? hbatch)).tasks task (List.mem_of_getElem? htask)
    refine ⟨hevents.newestLedger, hevents.calls, forall_mem_replaced b hevents.tasks
      (forall_mem_replaced k (hevents.tasks batch (List.mem_of_getElem? hbatch)) (fun e he => ?_))⟩
    have hstate : state' = .rejected e := he
    subst hstate
    exact (rejected_moves hok hr hfree hmoves).later hmoves.grows
  | events hmoves => exact rejections_events hi.events hr hfree hmoves

theorem rejections_of_run {log : EventLog} {s : BatchSystem Filter} {labels : List (BatchLabel Filter)}
    (h : run (batchStep lists rpc) (BatchSystem.init Filter log) labels = some s)
    (hfree : ∀ label ∈ labels, FaultFree label) : Rejections lists log s := by
  have hinit : BatchesOk lists rpc (BatchSystem.init Filter log) ∧
      Rejections lists log (BatchSystem.init Filter log) :=
    ⟨batchesOk_init log, Nat.le_refl _, fun _ _ h => absurd h List.not_mem_nil, fun _ h => absurd h List.not_mem_nil⟩
  have hkeep : ∀ t label t', BatchesOk lists rpc t ∧ Rejections lists log t → FaultFree label →
      batchStep lists rpc t label = some t' → BatchesOk lists rpc t' ∧ Rejections lists log t' :=
    fun t label t' hi hfree hs =>
      ⟨batchesOk_step hi.1 (batchMoves_of_step hs), rejections_step hi.1 hi.2 hfree (batchMoves_of_step hs)⟩
  exact (Runs.run_invariant_on hkeep hinit hfree h).2

theorem Rejections.exists_unavailable {log : EventLog} {s : BatchSystem Filter} (hr : Rejections lists log s)
    {batch : Batch} (hbatch : batch ∈ s.batches) (hok : BatchOk lists s.events batch) {e : JsError}
    (he : batch.outcome = some (.error e)) :
    ∃ sequence ∈ batch.bufferBlocks, Unavailable lists log s.events sequence e := by
  obtain ⟨task, htask, hresult⟩ := List.mem_map.1 (hok.outcome.rejected e he)
  have hstate : task.state = .rejected e := by
    unfold LedgerTask.result at hresult
    split at hresult
    · cases hresult
    · rename_i hstate
      cases hresult
      exact hstate
    · cases hresult
  refine ⟨task.sequence, ?_, hr.tasks batch hbatch task htask e hstate⟩
  rw [← hok.sequences]
  exact List.mem_map_of_mem htask

/-- **Without failures a batch is rejected only for a ledger that is not to be had**: Horizon refuses it, or it invokes
a host function and was not closed when the run began or has been dropped since; the error then names the ledger and, of
one not closed, a newest ledger of the server's. -/
theorem batch_rejected {log : EventLog} {s : BatchSystem Filter} {labels : List (BatchLabel Filter)}
    (h : run (batchStep lists rpc) (BatchSystem.init Filter log) labels = some s)
    (hfree : ∀ label ∈ labels, FaultFree label) {batch : Batch} (hbatch : batch ∈ s.batches) {e : JsError}
    (he : batch.outcome = some (.error e)) :
    ∃ sequence ∈ batch.bufferBlocks, Unavailable lists log s.events sequence e :=
  (rejections_of_run h hfree).exists_unavailable hbatch ((batchesOk_of_run h).batches batch hbatch) he

def Available (lists : HorizonLists) (log : EventLog) (sequence : Nat) : Prop :=
  (∃ ledger, lists.ledger sequence = .ok ledger) ∧
    (hasInvokeHostFunctionOp (lists.operations sequence) = true → sequence ≤ log.newestLedger)

theorem Available.not_unavailable {log : EventLog} {events : EventsSystem Filter} {sequence : Nat} {e : JsError}
    (h : Available lists log sequence)
    (hkept : hasInvokeHostFunctionOp (lists.operations sequence) = true → events.oldestLedger ≤ sequence) :
    ¬ Unavailable lists log events sequence e := by
  obtain ⟨⟨ledger, hledger⟩, hclosed⟩ := h
  intro hun
  cases hun with
  | noLedger herror => cases hledger.symm.trans herror
  | notClosed hgate hsequence _ _ => exact absurd (hclosed hgate) (Nat.not_le.2 hsequence)
  | dropped hgate hsequence => exact absurd (hkept hgate) (Nat.not_le.2 hsequence)

/-- **A batch of available ledgers completes**: in a run without failures that has come to where no step of its own is
left, and in which the server has kept its ledgers, it has resolved; where pages are whole, with the blocks a sequential
run fetches for its heights, in their order. -/
theorem batch_completes {log : EventLog} {s : BatchSystem Filter} {labels : List (BatchLabel Filter)}
    (h : run (batchStep lists rpc) (BatchSystem.init Filter log) labels = some s)
    (hfree : ∀ label ∈ labels, FaultFree label)
    (hstuck : ∀ label, Own label → FaultFree label → batchStep lists rpc s label = none) {batch : Batch}
    (hbatch : batch ∈ s.batches) (havailable : ∀ sequence ∈ batch.bufferBlocks, Available lists log sequence)
    (hkept : ∀ sequence ∈ batch.bufferBlocks, hasInvokeHostFunctionOp (lists.operations sequence) = true →
      s.events.oldestLedger ≤ sequence) :
    ∃ blocks, batch.outcome = some (.ok blocks) ∧
      (AllSteps (batchStep lists rpc) BatchWholePages (BatchSystem.init Filter log) labels →
        List.Forall₂ (Sequentially lists s.events.log rpc) batch.bufferBlocks blocks) := by
  have hi : BatchesOk lists rpc s := batchesOk_of_run h
  cases hout : batch.outcome with
  | none =>
    obtain ⟨label, s', ⟨hown, hfree⟩, hs⟩ : ∃ label s', (Own label ∧ FaultFree label) ∧
        batchStep lists rpc s label = some s' := batch_movesOn hi hbatch hout
    cases (hstuck label hown hfree).symm.trans hs
  | some outcome =>
    cases outcome with
    | ok blocks =>
      exact ⟨blocks, rfl, fun hpages =>
        (hi.batches batch hbatch).sequentially (consistent_of_batchRun h hpages) rpc hout⟩
    | error e =>
      obtain ⟨sequence, hsequence, hun⟩ :=
        (rejections_of_run h hfree).exists_unavailable hbatch (hi.batches batch hbatch) hout
      exact absurd hun ((havailable sequence hsequence).not_unavailable (hkept sequence hsequence))

theorem stuck_of_work_eq_zero {s : BatchSystem Filter} (hi : BatchesOk lists rpc s) (hwork : work lists s = 0)
    (label : BatchLabel Filter) (hown : Own label) : batchStep lists rpc s label = none := by
  cases hs : batchStep lists rpc s label with
  | none => rfl
  | some s' =>
    have hlt := work_lt hi hown (batchMoves_of_step hs)
    omega

end Progress

/-! ## Runs without failures -/

def pendingLabels : List (BatchLabel Unit) := [.fetchBlocks sampleLimit [7]] ++ horizonLabels 0 0

def completingLabels : List (BatchLabel Unit) :=
  pendingLabels ++
    [.events (.page 0 sampleLimit), .events (.page 0 sampleLimit), .events (.finish 0), .task 0 0 .resume]

/-- A batch of ledger 9, which the server has not closed. -/
def refusedLabels : List (BatchLabel Unit) :=
  [.fetchBlocks sampleLimit [9]] ++ horizonLabels 0 0 ++ [.events (.page 0 sampleLimit), .task 0 0 .resume]

theorem batchRun_completing :
    run (batchStep invokingLists unfiltered) (BatchSystem.init Unit invokingLog) completingLabels =
      some (batchRun invokingLists completingLabels) := rfl

theorem batchPages_completing : AllSteps (batchStep invokingLists unfiltered) BatchWholePages
    (BatchSystem.init Unit invokingLog) completingLabels := by decide +kernel

theorem batches_settle_pending : ∃ own s', (∀ label ∈ own, Own label ∧ FaultFree label) ∧
    run (batchStep invokingLists unfiltered) (batchRun invokingLists pendingLabels) own = some s' ∧
      ∀ batch ∈ s'.batches, batch.outcome ≠ none := by
  have hrun : run (batchStep invokingLists unfiltered) (BatchSystem.init Unit invokingLog) pendingLabels =
      some (batchRun invokingLists pendingLabels) := rfl
  exact (batches_settle hrun).2.2

theorem batch_rejected_refused : ∃ batch ∈ (batchRun invokingLists refusedLabels).batches,
    batch.outcome = some (.error (startsAfterNewest 9 7)) ∧
      ∃ sequence ∈ batch.bufferBlocks, Unavailable invokingLists invokingLog
        (batchRun invokingLists refusedLabels).events sequence (startsAfterNewest 9 7) := by
  have hrun : run (batchStep invokingLists unfiltered) (BatchSystem.init Unit invokingLog) refusedLabels =
      some (batchRun invokingLists refusedLabels) := rfl
  obtain ⟨batch, hbatch, he⟩ : ∃ batch ∈ (batchRun invokingLists refusedLabels).batches,
      batch.outcome = some (.error (startsAfterNewest 9 7)) := ⟨_, List.mem_of_getElem? (i := 0) rfl, rfl⟩
  have hfree : ∀ label ∈ refusedLabels, FaultFree label := by
    simp [refusedLabels, horizonLabels, FaultFree]
  exact ⟨batch, hbatch, he, batch_rejected hrun hfree hbatch he⟩

theorem batch_completes_invoking : ∃ batch ∈ (batchRun invokingLists completingLabels).batches, ∃ blocks,
    batch.outcome = some (.ok blocks) ∧
      List.Forall₂ (Sequentially invokingLists (batchRun invokingLists completingLabels).events.log unfiltered) [7]
        blocks := by
  obtain ⟨batch, hbatch, hblocks⟩ : ∃ batch ∈ (batchRun invokingLists completingLabels).batches,
      batch.bufferBlocks = [7] := ⟨_, List.mem_of_getElem? (i := 0) rfl, rfl⟩
  have hfree : ∀ label ∈ completingLabels, FaultFree label := by
    simp [completingLabels, pendingLabels, horizonLabels, FaultFree]
  have hwork : work invokingLists (batchRun invokingLists completingLabels) = 0 := rfl
  have hstuck : ∀ label, Own label → FaultFree label →
      batchStep invokingLists unfiltered (batchRun invokingLists completingLabels) label = none :=
    fun label hown _ => stuck_of_work_eq_zero (batchesOk_of_run batchRun_completing) hwork label hown
  have havailable : ∀ sequence ∈ batch.bufferBlocks, Available invokingLists invokingLog sequence := by
    rw [hblocks]
    intro sequence hsequence
    rw [List.mem_singleton.1 hsequence]
    exact ⟨⟨_, rfl⟩, fun _ => Nat.le_refl 7⟩
  have hkept : ∀ sequence ∈ batch.bufferBlocks, hasInvokeHostFunctionOp (invokingLists.operations sequence) = true →
      (batchRun invokingLists completingLabels).events.oldestLedger ≤ sequence :=
    fun sequence _ _ => Nat.zero_le sequence
  obtain ⟨blocks, hout, hsequentially⟩ := batch_completes batchRun_completing hfree hstuck hbatch havailable hkept
  exact ⟨batch, hbatch, blocks, hout, hblocks ▸ hsequentially batchPages_completing⟩

end SubqlStellar
