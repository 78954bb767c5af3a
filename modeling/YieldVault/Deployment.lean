-- A deployment: the adapters of the venues it knows, none of them twice.
import YieldVault.Adapter
import YieldVault.Record

namespace YieldVault

/-- The first venue that a list names a second time. -/
def Venue.repeated? (seen : List Venue) : List Venue → Option Venue
  | [] => none
  | v :: rest => if v ∈ seen then some v else Venue.repeated? (v :: seen) rest

theorem Venue.repeated?_eq_none {seen venues : List Venue} :
    Venue.repeated? seen venues = none ↔ venues.Nodup ∧ ∀ v ∈ venues, v ∉ seen := by
  induction venues generalizing seen with
  | nil => simp [Venue.repeated?]
  | cons v rest ih =>
    by_cases h : v ∈ seen
    · simp [Venue.repeated?, h]
    · simp only [Venue.repeated?, h, if_false, ih, List.nodup_cons, List.mem_cons]
      grind

/-- The adapters of a deployment, in the order of its file. -/
structure Deployment where
  adapters : List Adapter
  nodup : (adapters.map (·.venue)).Nodup

namespace Deployment

/-- The deployment of a list of adapters, unless one of their venues comes twice. -/
def ofList (adapters : List Adapter) : Except Error Deployment :=
  match h : Venue.repeated? [] (adapters.map (·.venue)) with
  | some venue => .error (.config (.configuredTwice venue))
  | none => .ok ⟨adapters, (Venue.repeated?_eq_none.1 h).1⟩

/-- The adapter of a venue. -/
def adapter? (deployment : Deployment) (venue : Venue) : Option Adapter :=
  deployment.adapters.find? fun a => a.venue == venue

/-- A venue's adapter with the accounts that a vault records for it. -/
def handle? (deployment : Deployment) (account : VaultAccount) (venue : Venue) : Option Handle :=
  (deployment.adapter? venue).map
    (⟨·, account.reserve venue, account.holding venue⟩)

/-- The handles of the venues that a vault has enabled. Every enabled venue must be deployed. -/
def wire (deployment : Deployment) (account : VaultAccount) : Except Error (VenueMap Handle) :=
  match account.enabledVenues.find? fun v => (deployment.adapter? v).isNone with
  | some venue => .error (.config (.notConfigured venue))
  | none => .ok (PerVenue.ofFn fun v =>
      if account.isEnabled v then deployment.handle? account v else none)

end Deployment

end YieldVault
