-- Allocations: how much stands at each venue, in units of one reserve asset. A
-- venue without an entry holds nothing.
import YieldVault.Amount

namespace YieldVault

/-- Values at some venues, in units of one mint. -/
structure AllocationSet where
  denomination : Key
  values : VenueMap UInt64
  deriving DecidableEq, Repr

namespace AllocationSet

/-- The value at a venue, zero without an entry. -/
def value (set : AllocationSet) (venue : Venue) : UInt64 := (set.values.get? venue).getD 0

/-- Every value scaled from one total to another, rounded down. -/
def rescale (set : AllocationSet) (total total' : UInt64) : Except Error AllocationSet :=
  (set.values.mapM fun _ v => mulDiv v total' total .floor).map fun values =>
    { set with values := values }

end AllocationSet

/-! ## A vault after a simulated rebalance -/

/-- What a vault would hold after a rebalance: the values it would aim at, those it holds, and
its total. -/
structure Projection where
  target : AllocationSet
  actual : AllocationSet
  total : UInt64
  deriving DecidableEq, Repr

/-- The projection as if an amount had left the vault: targets keep their proportions. -/
def Projection.afterWithdrawal (p : Projection) (amount : UInt64) : Except Error Projection :=
  if amount ≤ p.total then
    let remaining := p.total - amount
    (p.target.rescale p.total remaining).map fun target =>
      { target := target, actual := p.actual, total := remaining }
  else .error (.invalidInput (.aboveVaultValue amount p.total))

end YieldVault
