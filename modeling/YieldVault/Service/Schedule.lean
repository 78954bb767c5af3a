-- The schedule of passes: a tick comes due at every multiple of the interval.
-- One that comes due while a pass is under way waits for its end, and those
-- behind it are left out.
import YieldVault.Client.Rebalance

namespace YieldVault

/-- When the next tick of a schedule is due. -/
structure Ticker where
  interval : Nat
  due : Nat
  deriving DecidableEq, Repr

namespace Ticker

/-- A schedule from time zero on. The tick at its start does nothing. -/
def start (interval : Nat) : Ticker := ⟨interval, interval⟩

/-- Whether there are any ticks: an interval of nothing has none. -/
def ticks (t : Ticker) : Bool := 0 < t.interval

/-- The schedule after a tick that was taken up at some time: the next is an interval later, or,
after a late one, at the next multiple of the interval. -/
def taken (t : Ticker) (now : Nat) : Ticker :=
  if now ≤ t.due then { t with due := t.due + t.interval }
  else { t with due := now + t.interval - (now - t.due) % t.interval }

end Ticker

end YieldVault
