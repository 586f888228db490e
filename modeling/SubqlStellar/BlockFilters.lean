import SubqlStellar.IndexerManager
import SubqlStellar.Project
/-!
# BlockFilters — which items a handler's filter accepts

The filter processors of `StellarBlockWrapped`: an item passes where every field that the filter gives, and that is not
empty, is the item's own.  `filterTypeMap` picks the processor of a kind, and gives it the datasource's address.
-/
namespace SubqlStellar

/-- What `scValToNative` makes of an `xdr.ScVal`: a text, or a value that is no text. -/
inductive NativeValue
  | text (value : String)
  | other (json : String)
deriving DecidableEq, Repr

/-- What the runtime, the SDK and node-core provide to the filters. -/
structure FilterEnvironment where
  toLowerCase : String → String
  scValToNative : ScVal → NativeValue
  filterBlockTimestamp : String → StellarBlockFilter → Bool

section Filters

variable (env : FilterEnvironment)

def stringNormalizedEq (a : String) (b : Option String) : Bool :=
  decide (b.map env.toLowerCase = some (env.toLowerCase a))

/-- The test that a filter's field makes: a field that is absent or empty tests nothing. -/
def fieldAccepts (expected actual : Option String) : Bool :=
  match truthy expected with
  | some value => decide (actual = some value)
  | none       => true

def filterBlocksProcessor (block : StellarBlock) (filter : Option StellarBlockFilter) (_address : Option String) :
    Bool :=
  match filter with
  | none => true
  | some filter =>
    (match filter.modulo with
      | some (n + 1)   => decide (block.record.sequence % (n + 1) = 0)
      | some 0 | none  => true) &&
    env.filterBlockTimestamp block.record.closedAt filter

def filterTransactionProcessor (tx : StellarTransaction) (filter : Option StellarTransactionFilter)
    (_address : Option String) : Bool :=
  match filter with
  | none        => true
  | some filter => fieldAccepts filter.account (some tx.record.sourceAccount)

def filterOperationProcessor (op : StellarOperation) (filter : Option StellarOperationFilter)
    (_address : Option String) : Bool :=
  match filter with
  | none => true
  | some filter =>
    fieldAccepts filter.sourceAccount (some op.record.sourceAccount) && fieldAccepts filter.type (some op.record.type)

def filterEffectProcessor (effect : StellarEffect) (filter : Option StellarEffectFilter) (_address : Option String) :
    Bool :=
  match filter with
  | none => true
  | some filter =>
    fieldAccepts filter.account (some effect.record.account) && fieldAccepts filter.type (some effect.record.type)

/-- The first four topics: an empty one tests nothing, any other has to be the event's as a native value. -/
def topicsAccept (topics : List String) (topic : List ScVal) : Bool :=
  (topics.take 4).zipIdx.all (fun (expected, i) =>
    decide (expected = "") ||
      match topic[i]? with
      | some value => decide (env.scValToNative value = .text expected)
      | none       => false)

def filterEventProcessor (event : SorobanEvent) (filter : Option SorobanEventFilter) (address : Option String) : Bool :=
  (match truthy address with
    | some address => stringNormalizedEq env address event.record.contractId
    | none         => true) &&
  match filter with
  | none => true
  | some filter =>
    fieldAccepts filter.contractId event.record.contractId &&
      match filter.topics with
      | some topics => topicsAccept env topics event.record.topic
      | none        => true

def filterTypeMap (ds : SubqlDatasource) : SubqlHandler → HandlerInput → Bool
  | .block filter, .block block                            => filterBlocksProcessor env block filter (address ds)
  | .transaction filter, .transaction tx                   => filterTransactionProcessor tx filter (address ds)
  | .sorobanTransaction filter, .sorobanTransaction tx     => filterTransactionProcessor tx filter (address ds)
  | .operation filter, .operation op                       => filterOperationProcessor op filter (address ds)
  | .effects filter, .effects effect                       => filterEffectProcessor effect filter (address ds)
  | .event filter, .event event                            => filterEventProcessor env event filter (address ds)
  | _, _                                                   => false
where
  /-- `ds.options?.address`. -/
  address (ds : SubqlDatasource) : Option String := ds.options.bind SubqlStellarProcessorOptions.address

variable {env}

theorem eq_of_fieldAccepts {expected actual : Option String} (h : fieldAccepts expected actual = true) {value : String}
    (hvalue : truthy expected = some value) : actual = some value := by
  unfold fieldAccepts at h
  rw [hvalue] at h
  exact of_decide_eq_true h

theorem eq_of_stringNormalizedEq {a : String} {b : Option String} (h : stringNormalizedEq env a b = true) :
    b.map env.toLowerCase = some (env.toLowerCase a) := of_decide_eq_true h

theorem topic_of_topicsAccept {topics : List String} {topic : List ScVal} (h : topicsAccept env topics topic = true)
    {expected : String} {i : Nat} (hmem : (expected, i) ∈ (topics.take 4).zipIdx) (hne : expected ≠ "") :
    (topic[i]?).map env.scValToNative = some (.text expected) := by
  have hone := List.all_eq_true.1 h (expected, i) hmem
  simp only [hne, decide_false, Bool.false_or] at hone
  cases hvalue : topic[i]? with
  | none =>
    rw [hvalue] at hone
    cases hone
  | some value =>
    rw [hvalue] at hone
    exact congrArg some (of_decide_eq_true hone)

end Filters

end SubqlStellar
