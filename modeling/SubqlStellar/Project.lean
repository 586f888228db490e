import Mathlib.Data.List.Basic
/-!
# Project — a project's network, datasources and handlers

The parts of a project manifest that the node reads: a network with its endpoints, and datasources and templates with
their handlers.  A handler carries the filter of its kind; a handler of a custom datasource may have a kind of its own.
-/
namespace SubqlStellar

/-- A text that JavaScript takes for true. -/
def truthy (text : Option String) : Option String := text.filter (fun t => decide (t ≠ ""))

structure StellarBlockFilter where
  modulo : Option Nat
  timestamp : Option String
deriving DecidableEq, Repr

structure StellarTransactionFilter where
  account : Option String
deriving DecidableEq, Repr

structure StellarOperationFilter where
  type : Option String
  sourceAccount : Option String
deriving DecidableEq, Repr

structure StellarEffectFilter where
  type : Option String
  account : Option String
deriving DecidableEq, Repr

structure SorobanEventFilter where
  contractId : Option String
  topics : Option (List String)
deriving DecidableEq, Repr

/-- A kind that is none of `StellarHandlerKind`. -/
structure CustomKind where
  text : String
  isCustom : text ∉ ["stellar/BlockHandler", "stellar/TransactionHandler", "soroban/TransactionHandler",
    "stellar/OperationHandler", "stellar/EffectHandler", "soroban/EventHandler"]
deriving DecidableEq, Repr

inductive SubqlHandler
  | block (filter : Option StellarBlockFilter)
  | transaction (filter : Option StellarTransactionFilter)
  | sorobanTransaction (filter : Option StellarTransactionFilter)
  | operation (filter : Option StellarOperationFilter)
  | effects (filter : Option StellarEffectFilter)
  | event (filter : Option SorobanEventFilter)
  | custom (kind : CustomKind) (filter : Option (List (String × String)))
deriving DecidableEq, Repr

structure SubqlStellarProcessorOptions where
  address : Option String
deriving DecidableEq, Repr

inductive DatasourceKind
  | runtime
  | custom (kind : String)
deriving DecidableEq, Repr

/-- A datasource or a template, with the handlers of its mapping. -/
structure SubqlDatasource where
  kind : DatasourceKind
  options : Option SubqlStellarProcessorOptions
  handlers : List SubqlHandler
deriving DecidableEq, Repr

/-- `IStellarEndpointConfig`. -/
structure EndpointConfig where
  pageLimit : Option Nat
  headers : List (String × String)
deriving DecidableEq, Repr

structure NetworkConfig where
  chainId : String
  endpoint : List (String × EndpointConfig)
  sorobanEndpoint : Option String
deriving DecidableEq, Repr

structure SubqueryProject where
  network : NetworkConfig
  dataSources : List SubqlDatasource
  templates : List SubqlDatasource
deriving DecidableEq, Repr

def isRuntimeDs (ds : SubqlDatasource) : Bool := decide (ds.kind = .runtime)

def SubqlHandler.isEvent : SubqlHandler → Bool
  | .event _ => true
  | _ => false

def dsHasSorobanEventHandler (dataSources : List SubqlDatasource) : Bool :=
  dataSources.any (fun ds => isRuntimeDs ds && ds.handlers.any SubqlHandler.isEvent)

end SubqlStellar
