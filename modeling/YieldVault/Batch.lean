-- Batches: operations that the ledger takes together or not at all. Operations
-- stay plain values until a batch is sent, so that a plan can be looked at
-- without a ledger.
import YieldVault.Movement
import YieldVault.Weights

namespace YieldVault

/-- One step on a vault. -/
inductive Operation
  | refresh (venue : Venue)
  /-- Works out the vault's total from refreshed values. -/
  | consolidate
  /-- Commits target allocations. -/
  | rebalance (weights : Option Weights)
  | reconcile (step : ReconcileStep)
  | deposit (amount : UInt64) (source shareAccount : Key)
  | withdraw (shares : UInt64) (shareAccount destination : Key)
  /-- The payer's associated account for a mint, unless it is there. -/
  | createAssociated (mint : Key)
  /-- A new native token account, funded by the payer. -/
  | wrap (account : Key) (lamports : UInt64)
  /-- Closes a native token account; its lamports go back to the payer. -/
  | unwrap (account : Key)
  deriving DecidableEq

/-- The number of instructions that an operation takes. -/
def Operation.operands : Operation → Nat
  | .wrap .. => 2
  | _ => 1

/-- The number of instructions that operations take together. -/
def Operation.total : List Operation → Nat
  | [] => 0
  | op :: rest => op.operands + total rest

/-- Operations sent as one. -/
structure Batch where
  kind : BatchKind
  operations : List Operation
  /-- Who must sign, beside the payer. -/
  signers : List Key
  deriving DecidableEq

namespace Batch

/-- The number of instructions that a batch takes. -/
def operands (batch : Batch) : Nat := Operation.total batch.operations

/-- The reconciles of a batch, in order. -/
def reconciles (batch : Batch) : List ReconcileStep :=
  batch.operations.filterMap fun
    | .reconcile step => some step
    | _ => none

/-- The refreshed venues of a batch, in order. -/
def refreshes (batch : Batch) : List Venue :=
  batch.operations.filterMap fun
    | .refresh venue => some venue
    | _ => none

/-- Whether each reconcile comes after a refresh of its venue, where some are refreshed
already. -/
def refreshedFirst (refreshed : List Venue) : List Operation → Bool
  | [] => true
  | .refresh venue :: rest => refreshedFirst (venue :: refreshed) rest
  | .reconcile step :: rest =>
    refreshed.contains step.venue && refreshedFirst refreshed rest
  | _ :: rest => refreshedFirst refreshed rest

/-- Whether the batch refreshes each venue before it reconciles it. -/
def isRefreshedFirst (batch : Batch) : Bool := refreshedFirst [] batch.operations

end Batch

end YieldVault
