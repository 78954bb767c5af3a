-- What kinds of batches there are, and what is kept of a batch that confirmed.
import YieldVault.Key

namespace YieldVault

/-- What a batch is for. -/
inductive BatchKind
  /-- Refreshes that did not fit beside what they precede. -/
  | refresh
  /-- Refreshes, and new target allocations. -/
  | commit
  | reconcile
  /-- Accounts created ahead of a deposit or a withdrawal. -/
  | setup
  | deposit
  | withdraw
  /-- An account of one call closed again. -/
  | cleanup
  deriving DecidableEq, Repr

namespace BatchKind

/-- Every kind. -/
def all : List BatchKind := [refresh, commit, reconcile, setup, deposit, withdraw, cleanup]

/-- The name of a kind. -/
def name : BatchKind → String
  | refresh => "refresh"
  | commit => "commit"
  | reconcile => "reconcile"
  | setup => "setup"
  | deposit => "deposit"
  | withdraw => "withdraw"
  | cleanup => "cleanup"

instance : ToString BatchKind := ⟨name⟩

/-- The kind of a name. -/
def ofName? (text : String) : Option BatchKind := all.find? (·.name = text)

end BatchKind

/-- A batch that the ledger took. -/
structure Confirmation where
  /-- The place of the batch among all that its call attempted. -/
  batch : Nat
  kind : BatchKind
  signature : Signature
  deriving DecidableEq

end YieldVault
