-- Routes: which paths the service knows, what may be done with each, and what a
-- path's last segment stands for.
import YieldVault.Service.Message
import YieldVault.Text.Blank
import YieldVault.Text.Percent
import YieldVault.Text.Quoted
import YieldVault.Venue

namespace YieldVault

/-- Where a path leads. A part of the path that is named by the asker is still encoded. -/
inductive Route
  | health
  | vault
  | venueValue (venue : String)
  | previewDeposit (amount : String)
  | previewWithdraw (amount : String)
  | reload
  | rebalance
  | deposit
  | withdraw
  deriving DecidableEq, Repr

namespace Route

/-- Reads a path. Segments are compared as they stand, and the last is not empty. -/
def ofPath? (path : String) : Option Route :=
  match Text.pieces '/' path with
  | ["", "health"] => some health
  | ["", "api", "vault"] => some vault
  | ["", "api", "vault", "venues", venue] => if venue.isEmpty then none else some (venueValue venue)
  | ["", "api", "vault", "preview", "deposit", amount] =>
    if amount.isEmpty then none else some (previewDeposit amount)
  | ["", "api", "vault", "preview", "withdraw", amount] =>
    if amount.isEmpty then none else some (previewWithdraw amount)
  | ["", "api", "vault", "reload"] => some reload
  | ["", "api", "vault", "rebalance"] => some rebalance
  | ["", "api", "vault", "deposit"] => some deposit
  | ["", "api", "vault", "withdraw"] => some withdraw
  | _ => none

/-- Whether a route changes anything. Such a route takes posts, others are read. -/
def isPost : Route → Bool
  | reload | rebalance | deposit | withdraw => true
  | _ => false

/-- Whether a route needs a key. -/
def isGuarded : Route → Bool
  | health => false
  | _ => true

/-- Whether a route takes a method. What can be read can be read without content. -/
def takes (route : Route) (method : String) : Bool :=
  if route.isPost then method == "POST" else method == "GET" || method == "HEAD"

end Route

end YieldVault
