import SubqlStellar.Loops
import SubqlStellar.Records
/-!
# IndexerManager — a block's items handed to the handlers

`indexBlockData` walks a block: its transactions, their operations, their effects and their events, and at each of them
the datasources.  `indexData` is a parameter, in any monad.  The walk is one loop over what it visits
(`indexBlockData_eq`), so it does whatever `indexData` does, in the order of `visits`.
-/
namespace SubqlStellar

inductive HandlerInput
  | block (block : StellarBlock)
  | transaction (transaction : StellarTransaction)
  | sorobanTransaction (transaction : StellarTransaction)
  | operation (operation : StellarOperation)
  | effects (effect : StellarEffect)
  | event (event : SorobanEvent)

structure StellarBlockWrapped where
  block : StellarBlock
  transactions : List StellarTransaction
  operations : List StellarOperation
  effects : List StellarEffect
  events : List SorobanEvent

/-- The wrapper that `fetchAndWrapLedger` returns its block in. -/
def StellarBlock.wrapped (block : StellarBlock) : StellarBlockWrapped :=
  ⟨block, block.transactions, block.operations, block.effects, block.events⟩

def invokesHostFunction (transaction : StellarTransaction) : Bool :=
  transaction.operations.any (fun op => decide (op.record.type = "invoke_host_function"))

section Index

variable {m : Type → Type} [Monad m] {Ds : Type} (indexData : HandlerInput → Ds → m PUnit)

def indexBlockContent (block : StellarBlock) (dataSources : List Ds) : m PUnit :=
  forM dataSources (fun ds => indexData (.block block) ds)

def indexTransaction (transaction : StellarTransaction) (dataSources : List Ds) : m PUnit :=
  forM dataSources (fun ds => do
    indexData (.transaction transaction) ds
    if invokesHostFunction transaction then
      indexData (.sorobanTransaction transaction) ds)

def indexOperation (operation : StellarOperation) (dataSources : List Ds) : m PUnit :=
  forM dataSources (fun ds => indexData (.operation operation) ds)

def indexEffect (effect : StellarEffect) (dataSources : List Ds) : m PUnit :=
  forM dataSources (fun ds => indexData (.effects effect) ds)

def indexEvent (event : SorobanEvent) (dataSources : List Ds) : m PUnit :=
  forM dataSources (fun ds => indexData (.event event) ds)

def indexBlockData (wrapped : StellarBlockWrapped) (dataSources : List Ds) : m PUnit := do
  indexBlockContent indexData wrapped.block dataSources
  forM wrapped.transactions (fun tx => do
    indexTransaction indexData tx dataSources
    forM tx.operations (fun operation => do
      indexOperation indexData operation dataSources
      forM operation.effects (fun effect => indexEffect indexData effect dataSources)
      forM operation.events (fun event => indexEvent indexData event dataSources)))

end Index

/-! ## The walk as one loop -/

/-- A visit: where in the block it is, by the counters of the loops around it, and what each datasource is given.  Under
an operation, `0` stands before an effect's counter and `1` before an event's. -/
abbrev Visit := List Nat × List HandlerInput

def transactionInputs (transaction : StellarTransaction) : List HandlerInput :=
  .transaction transaction :: if invokesHostFunction transaction then [.sorobanTransaction transaction] else []

def operationVisits (operation : StellarOperation) : List Visit :=
  ([], [.operation operation]) :: Loops.numberedFrom 0
    [Loops.numberedFrom 0 (operation.effects.map (fun effect => [([], [.effects effect])])),
      Loops.numberedFrom 0 (operation.events.map (fun event => [([], [.event event])]))]

def transactionVisits (transaction : StellarTransaction) : List Visit :=
  ([], transactionInputs transaction) :: Loops.numberedFrom 0 (transaction.operations.map operationVisits)

def visits (wrapped : StellarBlockWrapped) : List Visit :=
  ([], [.block wrapped.block]) :: Loops.numberedFrom 0 (wrapped.transactions.map transactionVisits)

def visitCalls {Ds : Type} (dataSources : List Ds) (inputs : List HandlerInput) : List (HandlerInput × Ds) :=
  dataSources.flatMap (fun ds => inputs.map (fun input => (input, ds)))

def calls {Ds : Type} (wrapped : StellarBlockWrapped) (dataSources : List Ds) : List (HandlerInput × Ds) :=
  (visits wrapped).flatMap (fun visit => visitCalls dataSources visit.2)

section Walk

variable {m : Type → Type} [Monad m] {Ds : Type} (indexData : HandlerInput → Ds → m PUnit) (dataSources : List Ds)

def runVisits (visits : List Visit) : m PUnit :=
  forM (visits.flatMap (fun visit => visitCalls dataSources visit.2)) (fun call => indexData call.1 call.2)

variable [LawfulMonad m]

theorem forM_visitCalls (inputs : List HandlerInput) :
    forM (visitCalls dataSources inputs) (fun call => indexData call.1 call.2) =
      forM dataSources (fun ds => forM inputs (fun input => indexData input ds)) := by
  unfold visitCalls
  rw [Loops.forM_flatMap]
  exact Loops.forM_congr (fun ds => List.forM_map) dataSources

theorem runVisits_cons (path : List Nat) (inputs : List HandlerInput) (visits : List Visit) :
    runVisits indexData dataSources ((path, inputs) :: visits) = (do
      forM dataSources (fun ds => forM inputs (fun input => indexData input ds))
      runVisits indexData dataSources visits) := by
  unfold runVisits
  rw [List.flatMap_cons, List.forM_append, forM_visitCalls]

theorem runVisits_numbered {α : Type} (i : Nat) (l : List α) (f : α → List Visit) :
    runVisits indexData dataSources (Loops.numberedFrom i (l.map f)) =
      forM l (fun x => runVisits indexData dataSources (f x)) := by
  have hsnd : ∀ visits : List Visit, visits.flatMap (fun visit => visitCalls dataSources visit.2) =
      (visits.map Prod.snd).flatMap (visitCalls dataSources) :=
    fun visits => (List.flatMap_map _ _ _).symm
  unfold runVisits
  rw [hsnd, Loops.map_snd_numberedFrom, List.flatMap_assoc, List.flatMap_map, Loops.forM_flatMap]
  exact Loops.forM_congr (fun x => by rw [hsnd]) l

theorem forM_single (input : HandlerInput) :
    forM dataSources (fun ds => forM [input] (fun input => indexData input ds)) =
      forM dataSources (fun ds => indexData input ds) :=
  Loops.forM_congr (fun ds => by simp) dataSources

theorem runVisits_items {α : Type} (l : List α) (input : α → HandlerInput) :
    runVisits indexData dataSources (Loops.numberedFrom 0 (l.map (fun x => [([], [input x])]))) =
      forM l (fun x => forM dataSources (fun ds => indexData (input x) ds)) := by
  rw [runVisits_numbered]
  refine Loops.forM_congr (fun x => ?_) l
  rw [runVisits_cons, forM_single]
  simp [runVisits]

theorem indexOperation_eq (operation : StellarOperation) :
    runVisits indexData dataSources (operationVisits operation) = (do
      indexOperation indexData operation dataSources
      forM operation.effects (fun effect => indexEffect indexData effect dataSources)
      forM operation.events (fun event => indexEvent indexData event dataSources)) := by
  have hboth := runVisits_numbered indexData dataSources 0
    [Loops.numberedFrom 0 (operation.effects.map (fun effect => [([], [HandlerInput.effects effect])])),
      Loops.numberedFrom 0 (operation.events.map (fun event => [([], [HandlerInput.event event])]))] id
  rw [List.map_id] at hboth
  unfold operationVisits
  rw [runVisits_cons, forM_single, hboth, List.forM_cons, List.forM_cons, List.forM_nil]
  simp only [id_eq, runVisits_items, bind_pure_comp, id_map']
  rfl

theorem indexTransaction_eq (transaction : StellarTransaction) : indexTransaction indexData transaction dataSources =
    forM dataSources (fun ds => forM (transactionInputs transaction) (fun input => indexData input ds)) := by
  refine Loops.forM_congr (fun ds => ?_) dataSources
  unfold transactionInputs
  rw [List.forM_cons]
  split <;> simp

/-- **The walk over a block is one loop over its calls**, whatever `indexData` does. -/
theorem indexBlockData_eq (wrapped : StellarBlockWrapped) : indexBlockData indexData wrapped dataSources =
    forM (calls wrapped dataSources) (fun call => indexData call.1 call.2) := by
  show _ = runVisits indexData dataSources (visits wrapped)
  unfold visits indexBlockData
  rw [runVisits_cons, forM_single, runVisits_numbered]
  refine congrArg _ (funext fun _ => Loops.forM_congr (fun tx => ?_) wrapped.transactions)
  unfold transactionVisits
  rw [runVisits_cons, runVisits_numbered, indexTransaction_eq]
  refine congrArg _ (funext fun _ => Loops.forM_congr (fun operation => ?_) tx.operations)
  exact (indexOperation_eq indexData dataSources operation).symm

theorem traceOf_indexBlockData (wrapped : StellarBlockWrapped) :
    Loops.traceOf (fun record => indexBlockData (fun input ds => record (input, ds)) wrapped dataSources) =
      calls wrapped dataSources :=
  Loops.traceOf_forM (indexBlockData_eq _ dataSources wrapped)

end Walk

end SubqlStellar
