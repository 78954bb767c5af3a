-- Movements of capital between a vault and its venues: what differs between a
-- target and the actual allocation, and in which order it is moved. Withdrawals
-- come first, the largest before the others, so that the reserve covers what
-- the deposits take out.
import YieldVault.Allocation

namespace YieldVault

/-- Which way capital flows. -/
inductive Direction
  /-- From the venue back to the vault. -/
  | withdraw
  /-- From the vault into the venue. -/
  | deposit
  deriving DecidableEq, Repr

/-- One venue's movement, in reserve units; positive into the venue. -/
structure Movement where
  venue : Venue
  delta : Int
  delta_ne_zero : delta ≠ 0
  deriving DecidableEq

namespace Movement

/-- The movement of a delta, unless there is nothing to move. -/
def of? (venue : Venue) (delta : Int) : Option Movement :=
  if h : delta = 0 then none else some ⟨venue, delta, h⟩

def direction (m : Movement) : Direction := if m.delta < 0 then .withdraw else .deposit

/-- The amount moved, either way. -/
def amount (m : Movement) : Except Error UInt64 := amount? m.delta.natAbs

/-- The text of a movement, as plans show it. -/
def text (m : Movement) : String :=
  let verb := match m.direction with
    | .withdraw => "withdraw"
    | .deposit => "deposit"
  s!"{verb} {m.venue} {m.delta.natAbs}"

/-- The movements sorted by delta: the largest withdrawal first, the largest deposit last. -/
def inOrder (movements : List Movement) : List Movement :=
  movements.mergeSort fun a b => decide (a.delta ≤ b.delta)

end Movement

namespace AllocationSet

/-- The venues with an entry in either allocation: those of the target, then those that only the
actual values have. -/
def listed (target actual : AllocationSet) : List Venue :=
  target.values.venues ++ actual.values.venues.filter (!target.values.contains ·)

/-- The difference at a venue: what has to be moved into it. -/
def delta (target actual : AllocationSet) (v : Venue) : Int :=
  (target.value v).toNat - (actual.value v).toNat

/-- The movements that lead from the actual values to the target, in venue order. Venues on
target have none. -/
def movements (target actual : AllocationSet) : Except Error (List Movement) :=
  if target.denomination = actual.denomination then
    let listed := (target.listed actual).filterMap fun v => Movement.of? v (target.delta actual v)
    .ok (listed.mergeSort fun a b => decide (a.venue.index ≤ b.venue.index))
  else .error (.denominationMismatch actual.denomination target.denomination)

end AllocationSet

/-! ## Steps -/

/-- A reconcile as a batch carries it: its venue, and either zero, for the committed target, or
the amount to take out. -/
structure ReconcileStep where
  venue : Venue
  option : UInt64
  deriving DecidableEq, Repr

namespace ReconcileStep

/-- Moves the venue to the vault's committed target. -/
def toTarget (m : Movement) : ReconcileStep := ⟨m.venue, 0⟩

/-- Takes exactly the movement's amount out of the venue. -/
def explicit (m : Movement) : Except Error ReconcileStep := m.amount.map (⟨m.venue, ·⟩)

end ReconcileStep

end YieldVault
