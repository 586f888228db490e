import Mathlib.Data.List.Basic
/-!
# Records — what Horizon and the Soroban RPC return, and what the indexer wraps it in

The records of the two servers, with the fields the indexer reads.  Identifiers carry their format: a transaction hash
is hexadecimal, an operation id is decimal, and an effect id is a decimal operation id (with leading zeros) followed by
`-` and the effect's place.  No such text names a property every JavaScript object has, so a plain object keyed by them
is a table.

The wrapped records are the finite trees of the SDK's `StellarBlock`, `StellarTransaction`, `StellarOperation`,
`StellarEffect` and `SorobanEvent`: a parent reference holds a copy of the parent.
-/
namespace SubqlStellar

structure JsError where
  message : String
deriving DecidableEq, Repr

structure TxHash where
  text : String
  isHex : text.toList.all (fun c => c.isDigit || (decide ('a' ≤ c) && decide (c ≤ 'f'))) = true
deriving DecidableEq, Repr

/-- An operation id: a decimal number. -/
structure OperationId where
  text : String
  isDecimal : (text.toList ≠ [] ∧ text.toList.all Char.isDigit = true)
deriving DecidableEq, Repr

/-- The part of an effect id before the first `-`. -/
def idPrefix (s : String) : List Char := s.toList.takeWhile (fun c => decide (c ≠ '-'))

/-- An effect id: a decimal prefix, then `-` and the rest. -/
structure EffectId where
  text : String
  hasDecimalPrefix : (idPrefix text ≠ [] ∧ (idPrefix text).all Char.isDigit = true)
deriving DecidableEq, Repr

structure LedgerRecord where
  sequence : Nat
  closedAt : String
deriving DecidableEq, Repr

structure TransactionRecord where
  hash : TxHash
  sourceAccount : String
deriving DecidableEq, Repr

structure OperationRecord where
  id : OperationId
  transactionHash : TxHash
  type : String
  sourceAccount : String
deriving DecidableEq, Repr

structure EffectRecord where
  id : EffectId
  type : String
  account : String
deriving DecidableEq, Repr

/-- An `xdr.ScVal`, by its encoding. -/
structure ScVal where
  xdr : String
deriving DecidableEq, Repr

/-- `rpc.Api.EventResponse`, with the `operationIndex` its type leaves out. -/
structure SorobanRpcEventResponse where
  id : String
  ledger : Nat
  txHash : TxHash
  operationIndex : Nat
  contractId : Option String
  topic : List ScVal
deriving DecidableEq, Repr

mutual

structure StellarBlock where
  record : LedgerRecord
  transactions : List StellarTransaction
  operations : List StellarOperation
  effects : List StellarEffect
  events : List SorobanEvent

structure StellarTransaction where
  record : TransactionRecord
  ledger : Option StellarBlock
  operations : List StellarOperation
  effects : List StellarEffect
  events : List SorobanEvent

structure StellarOperation where
  record : OperationRecord
  ledger : Option StellarBlock
  transaction : Option StellarTransaction
  effects : List StellarEffect
  events : List SorobanEvent

structure StellarEffect where
  record : EffectRecord
  ledger : Option StellarBlock
  transaction : Option StellarTransaction
  operation : Option StellarOperation

structure SorobanEvent where
  record : SorobanRpcEventResponse
  ledger : Option StellarBlock
  transaction : Option StellarTransaction
  operation : Option StellarOperation

end

end SubqlStellar
