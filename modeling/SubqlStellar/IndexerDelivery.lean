import SubqlStellar.BlockPaging
import SubqlStellar.BlockRecords
import SubqlStellar.IndexerManager
/-!
# IndexerDelivery — the handlers' calls and the block's lists

What `indexBlockData` hands to one datasource, in order, against the lists of the block (`Delivered`), and the order of
all calls against the block's tree (`InOrder`).  A datasource is its place in the list, so that equal ones are told
apart; an item is its path in the tree.
-/
namespace SubqlStellar

section Inputs

def HandlerInput.block? : HandlerInput → Option StellarBlock
  | .block b => some b
  | _ => none

def HandlerInput.transaction? : HandlerInput → Option StellarTransaction
  | .transaction tx => some tx
  | _ => none

def HandlerInput.operation? : HandlerInput → Option StellarOperation
  | .operation op => some op
  | _ => none

def HandlerInput.effect? : HandlerInput → Option StellarEffect
  | .effects e => some e
  | _ => none

def HandlerInput.event? : HandlerInput → Option SorobanEvent
  | .event e => some e
  | _ => none

def HandlerInput.IsAt (block : StellarBlock) : List Nat → HandlerInput → Prop
  | [], .block block' => block' = block
  | [i], .transaction tx => block.transactions[i]? = some tx
  | [i], .sorobanTransaction tx => block.transactions[i]? = some tx
  | [i, j], .operation op => ∃ tx, block.transactions[i]? = some tx ∧ tx.operations[j]? = some op
  | [i, j, 0, k], .effects e => ∃ tx op, block.transactions[i]? = some tx ∧ tx.operations[j]? = some op ∧
      op.effects[k]? = some e
  | [i, j, 1, k], .event e => ∃ tx op, block.transactions[i]? = some tx ∧ tx.operations[j]? = some op ∧
      op.events[k]? = some e
  | _, _ => False

/-- The item at the first path is to be handled before the item at the second. -/
inductive Precedes : List Nat → List Nat → Prop
  | operation (i j : Nat) : Precedes [i] [i, j]
  | effect (i j k : Nat) : Precedes [i, j] [i, j, 0, k]
  | event (i j k : Nat) : Precedes [i, j] [i, j, 1, k]
  | eventAfterEffect (i j k l : Nat) : Precedes [i, j, 0, k] [i, j, 1, l]

end Inputs

section Statements

variable {Ds : Type}

def trace (block : StellarBlock) (dataSources : List Ds) : List (HandlerInput × Ds) :=
  Loops.traceOf (fun record => indexBlockData (fun input ds => record (input, ds)) block.wrapped dataSources)

def callsFor (block : StellarBlock) (dataSources : List Ds) (n : Nat) : List HandlerInput :=
  ((trace block dataSources.zipIdx).filter (fun call => decide (call.2.2 = n))).map Prod.fst

def placedCalls (block : StellarBlock) (dataSources : List Ds) : List (List Nat × HandlerInput × Ds) :=
  (visits block.wrapped).flatMap (fun visit => (visitCalls dataSources visit.2).map (fun call => (visit.1, call)))

/-- A datasource is given the block first, then exactly what the block lists. -/
structure Delivered (block : StellarBlock) (calls : List HandlerInput) : Prop where
  first : calls.head? = some (.block block)
  blocks : calls.filterMap HandlerInput.block? = [block]
  transactions : calls.filterMap HandlerInput.transaction? = block.transactions
  sorobanTransactions : ∀ i tx, calls[i + 1]? = some (.sorobanTransaction tx) ↔
    calls[i]? = some (.transaction tx) ∧ invokesHostFunction tx = true
  operations : calls.filterMap HandlerInput.operation? = block.operations
  effects : calls.filterMap HandlerInput.effect? = block.effects
  events : calls.filterMap HandlerInput.event? = block.operations.flatMap StellarOperation.events

structure InOrder (block : StellarBlock) (dataSources : List Ds) : Prop where
  calls : (placedCalls block dataSources).map Prod.snd = trace block dataSources
  items : ∀ call ∈ placedCalls block dataSources, call.2.1.IsAt block call.1
  ordered : ∀ (x y : Nat) (call call' : List Nat × HandlerInput × Ds), (placedCalls block dataSources)[x]? = some call →
    (placedCalls block dataSources)[y]? = some call' → Precedes call.1 call'.1 → x < y

end Statements

section OneDatasource

variable {Ds : Type}

theorem flatMap_place {β : Type} (xs : List β) {n : Nat} : ∀ {k : Nat} {dataSources : List Ds}, k ≤ n →
    n < k + dataSources.length →
    (dataSources.zipIdx k).flatMap (fun ds => if ds.2 = n then xs else []) = xs
  | k, [], hk, hn => by
    rw [List.length_nil] at hn
    omega
  | k, ds :: dataSources, hk, hn => by
    rw [List.zipIdx_cons, List.flatMap_cons]
    by_cases hkn : k = n
    · have hrest : (dataSources.zipIdx (k + 1)).flatMap (fun ds => if ds.2 = n then xs else []) = [] := by
        rw [List.flatMap_eq_nil_iff]
        intro ds hds
        have := List.le_snd_of_mem_zipIdx hds
        rw [if_neg (by omega)]
      rw [hrest, if_pos hkn, List.append_nil]
    · rw [List.length_cons] at hn
      rw [if_neg hkn, List.nil_append, flatMap_place xs (by omega) (by omega)]

theorem visitCalls_place (dataSources : List Ds) {n : Nat} (hn : n < dataSources.length) (inputs : List HandlerInput) :
    ((visitCalls dataSources.zipIdx inputs).filter (fun call => decide (call.2.2 = n))).map Prod.fst = inputs := by
  have hone := flatMap_place inputs (Nat.zero_le n) (show n < 0 + dataSources.length by omega)
  unfold visitCalls
  rw [List.filter_flatMap, List.map_flatMap]
  refine Eq.trans (List.flatMap_congr (fun ds _ => ?_)) hone
  rw [List.filter_map, List.map_map]
  by_cases hds : ds.2 = n
  · have hall : inputs.filter
        ((fun call : HandlerInput × Ds × Nat => decide (call.2.2 = n)) ∘ fun input => (input, ds)) = inputs :=
      List.filter_eq_self.2 (fun input _ => decide_eq_true hds)
    rw [hall, if_pos hds]
    exact List.map_id' inputs
  · have hnone : inputs.filter
        ((fun call : HandlerInput × Ds × Nat => decide (call.2.2 = n)) ∘ fun input => (input, ds)) = [] :=
      List.filter_eq_nil_iff.2 (fun input _ => by simpa using hds)
    rw [hnone, if_neg hds]
    rfl

theorem callsFor_eq (block : StellarBlock) (dataSources : List Ds) {n : Nat} (hn : n < dataSources.length) :
    callsFor block dataSources n = (visits block.wrapped).flatMap Prod.snd := by
  unfold callsFor trace
  rw [traceOf_indexBlockData, calls, List.filter_flatMap, List.map_flatMap]
  exact List.flatMap_congr (fun visit _ => visitCalls_place dataSources hn visit.2)

end OneDatasource

section Walk

def operationWalk (operation : StellarOperation) : List HandlerInput :=
  .operation operation :: (operation.effects.map .effects ++ operation.events.map .event)

def transactionWalk (transaction : StellarTransaction) : List HandlerInput :=
  transactionInputs transaction ++ transaction.operations.flatMap operationWalk

theorem flatMap_snd_numbered (i : Nat) (bodies : List (List Visit)) :
    (Loops.numberedFrom i bodies).flatMap Prod.snd = bodies.flatMap (fun body => body.flatMap Prod.snd) := by
  have hsnd : ∀ visits : List Visit, visits.flatMap Prod.snd = (visits.map Prod.snd).flatten :=
    fun visits => List.flatMap_def
  rw [hsnd, Loops.map_snd_numberedFrom, List.flatMap_def, List.flatten_flatten, List.map_map, List.flatMap_def]
  exact congrArg List.flatten (List.map_congr_left (fun body _ => (hsnd body).symm))

theorem flatMap_operationVisits (operation : StellarOperation) :
    (operationVisits operation).flatMap Prod.snd = operationWalk operation := by
  unfold operationVisits operationWalk
  rw [List.flatMap_cons, flatMap_snd_numbered, List.flatMap_cons, List.flatMap_singleton, flatMap_snd_numbered,
    flatMap_snd_numbered, List.flatMap_map, List.flatMap_map]
  simp [List.map_eq_flatMap]

theorem flatMap_transactionVisits (transaction : StellarTransaction) :
    (transactionVisits transaction).flatMap Prod.snd = transactionWalk transaction := by
  unfold transactionVisits transactionWalk
  rw [List.flatMap_cons, flatMap_snd_numbered, List.flatMap_map]
  exact congrArg _ (List.flatMap_congr (fun op _ => flatMap_operationVisits op))

theorem flatMap_visits (wrapped : StellarBlockWrapped) : (visits wrapped).flatMap Prod.snd =
    .block wrapped.block :: wrapped.transactions.flatMap transactionWalk := by
  unfold visits
  rw [List.flatMap_cons, flatMap_snd_numbered, List.flatMap_map]
  exact congrArg _ (List.flatMap_congr (fun tx _ => flatMap_transactionVisits tx))

theorem filterMap_walk {α : Type} (project : HandlerInput → Option α) {block : StellarBlock}
    (hblock : project (.block block) = none) :
    (HandlerInput.block block :: block.transactions.flatMap transactionWalk).filterMap project =
      block.transactions.flatMap (fun tx => (transactionInputs tx).filterMap project ++
        tx.operations.flatMap (fun op => (operationWalk op).filterMap project)) := by
  rw [List.filterMap_cons, hblock]
  simp only [List.filterMap_flatMap, transactionWalk, List.filterMap_append]

theorem filterMap_operationWalk {α : Type} (project : HandlerInput → Option α) (operation : StellarOperation) :
    (operationWalk operation).filterMap project = (project (.operation operation)).toList ++
      (operation.effects.filterMap (fun e => project (.effects e)) ++
        operation.events.filterMap (fun e => project (.event e))) := by
  unfold operationWalk
  rw [List.filterMap_cons, List.filterMap_append, List.filterMap_map, List.filterMap_map]
  cases project (.operation operation) <;> rfl

theorem filterMap_transactionInputs {α : Type} (project : HandlerInput → Option α)
    (h : ∀ tx, project (.transaction tx) = none) (hsoroban : ∀ tx, project (.sorobanTransaction tx) = none)
    (transaction : StellarTransaction) : (transactionInputs transaction).filterMap project = [] := by
  unfold transactionInputs
  split <;> simp [h, hsoroban]

theorem filterMap_transaction (transaction : StellarTransaction) :
    (transactionInputs transaction).filterMap HandlerInput.transaction? = [transaction] := by
  unfold transactionInputs
  split <;> rfl

end Walk

section Paired

/-- The Soroban calls are those right after the calls on the same transactions that invoke a host function. -/
structure Paired (calls : List HandlerInput) : Prop where
  first : ∀ tx, calls[0]? ≠ some (.sorobanTransaction tx)
  next : ∀ i tx, calls[i + 1]? = some (.sorobanTransaction tx) ↔
    calls[i]? = some (.transaction tx) ∧ invokesHostFunction tx = true

theorem Paired.nil : Paired [] where
  first tx := by simp
  next i tx := by simp

theorem Paired.append {calls calls' : List HandlerInput} (h : Paired calls) (h' : Paired calls') :
    Paired (calls ++ calls') where
  first tx := by
    cases calls with
    | nil => exact h'.first tx
    | cons input calls => exact h.first tx
  next i tx := by
    rcases Nat.lt_trichotomy (i + 1) calls.length with hi | hi | hi
    · rw [List.getElem?_append_left hi, List.getElem?_append_left (by omega)]
      exact h.next i tx
    · -- between the two lists there is no pair
      have hlast := h.next i tx
      rw [List.getElem?_eq_none (by omega)] at hlast
      rw [List.getElem?_append_right (by omega), List.getElem?_append_left (by omega), ← hi, Nat.sub_self]
      exact ⟨fun hfirst => absurd hfirst (h'.first tx), fun hpair => absurd (hlast.2 hpair) (by simp)⟩
    · have hnext : i + 1 - calls.length = (i - calls.length) + 1 := by omega
      rw [List.getElem?_append_right (by omega), List.getElem?_append_right (by omega), hnext]
      exact h'.next _ tx

theorem Paired.flatMap {α : Type} {walk : α → List HandlerInput} : ∀ {l : List α}, (∀ x ∈ l, Paired (walk x)) →
    Paired (l.flatMap walk)
  | [], _ => Paired.nil
  | x :: l, h => by
    rw [List.flatMap_cons]
    exact (h x List.mem_cons_self).append (Paired.flatMap (fun y hy => h y (List.mem_cons_of_mem x hy)))

theorem Paired.of_other {calls : List HandlerInput}
    (h : ∀ input ∈ calls, ∀ tx, input ≠ .transaction tx ∧ input ≠ .sorobanTransaction tx) : Paired calls where
  first tx hfirst := (h _ (List.mem_of_getElem? hfirst) tx).2 rfl
  next i tx := by
    constructor
    · intro hnext
      exact absurd rfl (h _ (List.mem_of_getElem? hnext) tx).2
    · rintro ⟨hhere, -⟩
      exact absurd rfl (h _ (List.mem_of_getElem? hhere) tx).1

theorem paired_transactionInputs (transaction : StellarTransaction) : Paired (transactionInputs transaction) := by
  unfold transactionInputs
  by_cases hinvokes : invokesHostFunction transaction = true
  · rw [if_pos hinvokes]
    refine ⟨fun tx => by simp, fun i tx => ?_⟩
    match i with
    | 0 =>
      simp only [List.getElem?_cons_succ, List.getElem?_cons_zero, Option.some.injEq,
        HandlerInput.sorobanTransaction.injEq, HandlerInput.transaction.injEq]
      exact ⟨fun h => ⟨h, h ▸ hinvokes⟩, fun h => h.1⟩
    | 1 => simp
    | i + 2 => simp
  · rw [if_neg hinvokes]
    refine ⟨fun tx => by simp, fun i tx => ?_⟩
    match i with
    | 0 =>
      simp only [List.getElem?_cons_succ, List.getElem?_cons_zero, List.getElem?_nil, Option.some.injEq,
        HandlerInput.transaction.injEq, reduceCtorEq, false_iff]
      rintro ⟨rfl, h⟩
      exact hinvokes h
    | i + 1 => simp

theorem paired_operationWalk (operation : StellarOperation) : Paired (operationWalk operation) := by
  apply Paired.of_other
  intro input hinput tx
  simp only [operationWalk, List.mem_cons, List.mem_append, List.mem_map] at hinput
  rcases hinput with rfl | ⟨_, -, rfl⟩ | ⟨_, -, rfl⟩ <;> simp

theorem paired_walk (block : StellarBlock) :
    Paired (HandlerInput.block block :: block.transactions.flatMap transactionWalk) := by
  have hblock : Paired [HandlerInput.block block] := Paired.of_other (fun input hinput tx => by
    rw [List.mem_singleton.1 hinput]
    simp)
  refine hblock.append (Paired.flatMap (fun tx _ => ?_))
  exact (paired_transactionInputs tx).append (Paired.flatMap (fun op _ => paired_operationWalk op))

end Paired

section Block

variable {records : LedgerRecords} {block : StellarBlock}

/-- **The calls for one datasource are the block's lists.** -/
theorem Holds.delivered (h : Holds records block) {Ds : Type} {dataSources : List Ds} {n : Nat}
    (hn : n < dataSources.length) : Delivered block (callsFor block dataSources n) := by
  have hcalls : callsFor block dataSources n =
      HandlerInput.block block :: block.transactions.flatMap transactionWalk := by
    rw [callsFor_eq block dataSources hn, flatMap_visits]
    rfl
  rw [hcalls]
  constructor
  · rfl
  · rw [List.filterMap_cons]
    have hnone : (block.transactions.flatMap transactionWalk).filterMap HandlerInput.block? = [] := by
      simp only [List.filterMap_flatMap, transactionWalk, List.filterMap_append, filterMap_operationWalk,
        filterMap_transactionInputs HandlerInput.block? (fun _ => rfl) (fun _ => rfl)]
      simp [HandlerInput.block?]
    rw [hnone]
    rfl
  · rw [filterMap_walk _ rfl]
    have hnone : ∀ l : List StellarOperation, l.flatMap (fun _ => ([] : List StellarTransaction)) = [] :=
      fun l => by simp
    simp only [filterMap_operationWalk, filterMap_transaction]
    simp [HandlerInput.transaction?, hnone]
  · exact (paired_walk block).next
  · rw [filterMap_walk _ rfl, h.operations]
    simp only [filterMap_operationWalk,
      filterMap_transactionInputs HandlerInput.operation? (fun _ => rfl) (fun _ => rfl)]
    simp [HandlerInput.operation?]
  · rw [filterMap_walk _ rfl, h.effects, h.operations, List.flatMap_assoc]
    simp only [filterMap_operationWalk,
      filterMap_transactionInputs HandlerInput.effect? (fun _ => rfl) (fun _ => rfl)]
    simp [HandlerInput.effect?]
  · rw [filterMap_walk _ rfl, h.operations, List.flatMap_assoc]
    simp only [filterMap_operationWalk,
      filterMap_transactionInputs HandlerInput.event? (fun _ => rfl) (fun _ => rfl)]
    simp [HandlerInput.event?]

end Block

/-! ## The order of all calls -/

section Order

theorem operationVisits_sorted (operation : StellarOperation) :
    (operationVisits operation).Pairwise (fun v w => Loops.Before v.1 w.1) := by
  have hitems : ∀ {α : Type} (input : α → HandlerInput) (l : List α),
      ∀ body ∈ l.map (fun x => [(([] : List Nat), [input x])]), body.Pairwise (fun v w => Loops.Before v.1 w.1) := by
    intro α input l body hbody
    obtain ⟨x, -, rfl⟩ := List.mem_map.1 hbody
    exact List.pairwise_singleton _ _
  apply Loops.nil_cons_sorted
  intro body hbody
  simp only [List.mem_cons, List.not_mem_nil, or_false] at hbody
  rcases hbody with rfl | rfl
  · exact Loops.numberedFrom_sorted 0 (hitems HandlerInput.effects operation.effects)
  · exact Loops.numberedFrom_sorted 0 (hitems HandlerInput.event operation.events)

theorem transactionVisits_sorted (transaction : StellarTransaction) :
    (transactionVisits transaction).Pairwise (fun v w => Loops.Before v.1 w.1) := by
  apply Loops.nil_cons_sorted
  intro body hbody
  obtain ⟨op, -, rfl⟩ := List.mem_map.1 hbody
  exact operationVisits_sorted op

/-- **The visits of a block come in the order of their paths.** -/
theorem visits_sorted (wrapped : StellarBlockWrapped) :
    (visits wrapped).Pairwise (fun v w => Loops.Before v.1 w.1) := by
  apply Loops.nil_cons_sorted
  intro body hbody
  obtain ⟨tx, -, rfl⟩ := List.mem_map.1 hbody
  exact transactionVisits_sorted tx

theorem Precedes.before {p q : List Nat} (h : Precedes p q) : Loops.Before p q := by
  cases h with
  | operation i j => exact List.Lex.cons List.Lex.nil
  | effect i j k => exact List.Lex.cons (List.Lex.cons List.Lex.nil)
  | event i j k => exact List.Lex.cons (List.Lex.cons List.Lex.nil)
  | eventAfterEffect i j k l => exact List.Lex.cons (List.Lex.cons (List.Lex.rel Nat.zero_lt_one))

section Placed

variable {Ds : Type} {block : StellarBlock} {dataSources : List Ds}

theorem mem_transactionInputs {transaction : StellarTransaction} {input : HandlerInput}
    (h : input ∈ transactionInputs transaction) :
    input = .transaction transaction ∨ input = .sorobanTransaction transaction := by
  unfold transactionInputs at h
  rcases List.mem_cons.1 h with h | h
  · exact Or.inl h
  · split at h
    · exact Or.inr (List.mem_singleton.1 h)
    · cases h

theorem isAt_of_mem_operationVisits {i j : Nat} {tx : StellarTransaction} {op : StellarOperation}
    (htx : block.transactions[i]? = some tx) (hop : tx.operations[j]? = some op) {visit : Visit}
    (h : visit ∈ operationVisits op) : ∀ input ∈ visit.2, input.IsAt block (i :: j :: visit.1) := by
  intro input hinput
  rcases List.mem_cons.1 h with rfl | h
  · rw [List.mem_singleton.1 hinput]
    exact ⟨tx, htx, hop⟩
  · obtain ⟨which, body, visit, hbody, hvisit, rfl⟩ := Loops.mem_numberedFrom h
    match which with
    | 0 =>
      cases hbody
      obtain ⟨k, effect, item, heffect, hitem, rfl⟩ := Loops.mem_numbered hvisit
      cases List.mem_singleton.1 hitem
      rw [List.mem_singleton.1 hinput]
      exact ⟨tx, op, htx, hop, heffect⟩
    | 1 =>
      cases hbody
      obtain ⟨k, event, item, hevent, hitem, rfl⟩ := Loops.mem_numbered hvisit
      cases List.mem_singleton.1 hitem
      rw [List.mem_singleton.1 hinput]
      exact ⟨tx, op, htx, hop, hevent⟩
    | which + 2 => cases hbody

theorem isAt_of_mem_transactionVisits {i : Nat} {tx : StellarTransaction} (htx : block.transactions[i]? = some tx)
    {visit : Visit} (h : visit ∈ transactionVisits tx) : ∀ input ∈ visit.2, input.IsAt block (i :: visit.1) := by
  rcases List.mem_cons.1 h with rfl | h
  · intro input hinput
    rcases mem_transactionInputs hinput with rfl | rfl
    · exact htx
    · exact htx
  · obtain ⟨j, op, visit, hop, hvisit, rfl⟩ := Loops.mem_numbered h
    exact isAt_of_mem_operationVisits htx hop hvisit

theorem isAt_of_mem_visits {visit : Visit} (h : visit ∈ visits block.wrapped) :
    ∀ input ∈ visit.2, input.IsAt block visit.1 := by
  rcases List.mem_cons.1 h with rfl | h
  · intro input hinput
    rw [List.mem_singleton.1 hinput]
    exact rfl
  · obtain ⟨i, tx, visit, htx, hvisit, rfl⟩ := Loops.mem_numbered h
    exact isAt_of_mem_transactionVisits htx hvisit

theorem placedCalls_sorted (block : StellarBlock) (dataSources : List Ds) :
    ((placedCalls block dataSources).map Prod.fst).Pairwise (fun p q => ¬ Loops.Before q p) := by
  have hpaths : (placedCalls block dataSources).map Prod.fst = (visits block.wrapped).flatMap
      (fun visit => (visitCalls dataSources visit.2).map (fun _ => visit.1)) := by
    unfold placedCalls
    rw [List.map_flatMap]
    simp only [List.map_map, Function.comp_def]
  rw [hpaths, List.pairwise_flatMap]
  constructor
  · intro visit _
    rw [List.pairwise_map]
    exact List.pairwise_of_forall (fun _ _ => Loops.not_before_self visit.1)
  · refine (visits_sorted block.wrapped).imp (fun hbefore path hpath path' hpath' => ?_)
    obtain ⟨_, -, rfl⟩ := List.mem_map.1 hpath
    obtain ⟨_, -, rfl⟩ := List.mem_map.1 hpath'
    exact hbefore.asymm

theorem inOrder (block : StellarBlock) (dataSources : List Ds) : InOrder block dataSources where
  calls := by
    unfold trace placedCalls
    rw [traceOf_indexBlockData, List.map_flatMap]
    refine List.flatMap_congr (fun visit _ => ?_)
    rw [List.map_map]
    exact List.map_id _
  items call hcall := by
    obtain ⟨visit, hvisit, hcall⟩ := List.mem_flatMap.1 hcall
    obtain ⟨call, hinput, rfl⟩ := List.mem_map.1 hcall
    refine isAt_of_mem_visits hvisit call.1 ?_
    unfold visitCalls at hinput
    obtain ⟨ds, -, hds⟩ := List.mem_flatMap.1 hinput
    obtain ⟨input, hmem, rfl⟩ := List.mem_map.1 hds
    exact hmem
  ordered x y call call' hcall hcall' hprecedes := by
    refine Loops.index_lt (placedCalls_sorted block dataSources) (p := call.1) (q := call'.1) ?_ ?_ hprecedes.before
    · rw [List.getElem?_map, hcall]
      rfl
    · rw [List.getElem?_map, hcall']
      rfl

theorem trace_zipIdx (block : StellarBlock) (dataSources : List Ds) :
    (trace block dataSources.zipIdx).map (fun call => (call.1, call.2.1)) = trace block dataSources := by
  unfold trace
  rw [traceOf_indexBlockData, traceOf_indexBlockData]
  unfold calls
  rw [List.map_flatMap]
  refine List.flatMap_congr (fun visit _ => ?_)
  have hdataSources : dataSources = dataSources.zipIdx.map Prod.fst := (List.zipIdx_map_fst 0 dataSources).symm
  unfold visitCalls
  rw [List.map_flatMap]
  conv_rhs => rw [hdataSources, List.flatMap_map]
  simp only [List.map_map, Function.comp_def]

end Placed

end Order

/-- **The handlers of every datasource are given what the block lists, in the order of the block's tree.** -/
theorem handler_delivery {Filter : Type} {api : StellarApi Filter} {fuel sequence : Nat}
    {eventsCache eventsCache' : EventsCache} {block : StellarBlock}
    (hblock : fetchAndWrapLedger api fuel sequence eventsCache = some (.ok block, eventsCache')) {Ds : Type}
    (dataSources : List Ds) :
    (∀ n < dataSources.length, Delivered block (callsFor block dataSources n)) ∧
      (trace block dataSources.zipIdx).map (fun call => (call.1, call.2.1)) = trace block dataSources ∧
      InOrder block dataSources := by
  obtain ⟨records, -, rfl⟩ := fetchAndWrapLedger_eq_ok.1 hblock
  exact ⟨fun n hn => (holds_block records).delivered hn, trace_zipIdx _ dataSources, inOrder _ dataSources⟩

/-- Two equal datasources. -/
theorem handler_delivery_twice : ∃ block eventsCache,
    fetchAndWrapLedger (pagedApi invokingLists invokingLog unfiltered (evenCuts 1) 10) 5 7 ∅ =
      some (.ok block, eventsCache) ∧
    (∀ n < 2, Delivered block (callsFor block [(), ()] n)) ∧ InOrder block [(), ()] := by
  obtain ⟨eventsCache, hfetches⟩ : ∃ eventsCache,
      Fetches (pagedApi invokingLists invokingLog unfiltered (evenCuts 1) 10) 5 7 ∅ invokingRecords eventsCache :=
    fetches_paged rfl (by decide) (by decide)
  have hblock := fetchAndWrapLedger_eq_ok.2 ⟨invokingRecords, hfetches, rfl⟩
  obtain ⟨hdelivered, -, horder⟩ := handler_delivery hblock [(), ()]
  exact ⟨_, eventsCache, hblock, hdelivered, horder⟩

/-! ## A handler that throws -/

section Throw

variable {ε σ Ds : Type} (indexData : HandlerInput → Ds → ExceptT ε (StateM σ) PUnit)

def runCalls (placed : List (List Nat × HandlerInput × Ds)) : ExceptT ε (StateM σ) PUnit :=
  forM placed (fun call => indexData call.2.1 call.2.2)

theorem mem_before_of_lt {α : Type} {before after : List α} {a b : α} {i : Nat}
    (hi : (before ++ a :: after)[i]? = some b) (hlt : i < before.length) : b ∈ before := by
  rw [List.getElem?_append_left hlt] at hi
  exact List.mem_of_getElem? hi

theorem mem_after_of_lt {α : Type} {before after : List α} {a b : α} {i : Nat}
    (hi : (before ++ a :: after)[i]? = some b) (hlt : before.length < i) : b ∈ after := by
  rw [List.getElem?_append_right (Nat.le_of_lt hlt)] at hi
  obtain ⟨j, hj⟩ : ∃ j, i - before.length = j + 1 := Nat.exists_eq_succ_of_ne_zero (by omega)
  rw [hj, List.getElem?_cons_succ] at hi
  exact List.mem_of_getElem? hi

/-- **A handler that throws stops the walk there**: the calls before it, in the order of the block's tree, have been
made and none after it; so every item that is to be handled before the failing one has been, and none after. -/
theorem indexing_stops (block : StellarBlock) (dataSources : List Ds) (s s' : σ) (e : ε) :
    indexBlockData indexData block.wrapped dataSources s = (.error e, s') ↔
      ∃ before call after between, placedCalls block dataSources = before ++ call :: after ∧
        runCalls indexData before s = (.ok ⟨⟩, between) ∧ indexData call.2.1 call.2.2 between = (.error e, s') ∧
        ∀ other ∈ placedCalls block dataSources,
          (Precedes other.1 call.1 → other ∈ before) ∧ (Precedes call.1 other.1 → other ∈ after) := by
  have horder := inOrder block dataSources
  have hwalk : indexBlockData indexData block.wrapped dataSources =
      runCalls indexData (placedCalls block dataSources) := by
    unfold runCalls
    rw [indexBlockData_eq, ← traceOf_indexBlockData dataSources block.wrapped]
    show forM (trace block dataSources) _ = _
    rw [← horder.calls, List.forM_map]
  rw [hwalk]
  unfold runCalls
  rw [Loops.forM_eq_error]
  constructor
  · rintro ⟨before, call, after, between, hsplit, hbefore, hcall⟩
    refine ⟨before, call, after, between, hsplit, hbefore, hcall, fun other hother => ?_⟩
    have hhere : (placedCalls block dataSources)[before.length]? = some call := by
      rw [hsplit, List.getElem?_append_right (Nat.le_refl _), Nat.sub_self]
      rfl
    obtain ⟨i, hi⟩ := List.mem_iff_getElem?.1 hother
    rw [hsplit] at hi
    refine ⟨fun hprecedes => mem_before_of_lt hi ?_, fun hprecedes => mem_after_of_lt hi ?_⟩
    · exact horder.ordered _ _ other call (hsplit ▸ hi) hhere hprecedes
    · exact horder.ordered _ _ call other hhere (hsplit ▸ hi) hprecedes
  · rintro ⟨before, call, after, between, hsplit, hbefore, hcall, -⟩
    exact ⟨before, call, after, between, hsplit, hbefore, hcall⟩

end Throw

end SubqlStellar
