-- A client of one vault: the venues it was wired to when it was opened, and the
-- last record it read. Reads answer from that record; a reload replaces it whole.
import YieldVault.Deployment
import YieldVault.Record.Load

namespace YieldVault

/-- The encoder of operations on a vault as it was read. -/
def VaultRecord.encoder (record : VaultRecord) (program payer : Key) (handles : VenueMap Handle) :
    Encoder where
  keys := record.keys program
  handles := handles
  reserves := record.account.reserves
  payer := payer

structure Client where
  /-- The vault's program. -/
  program : Key
  vault : Key
  /-- Who pays for, and signs, every batch. -/
  payer : Key
  handles : VenueMap Handle
  /-- The most instructions of a batch. -/
  ceiling : Nat
  record : VaultRecord

namespace Client

/-! ## Opening and reloading -/

/-- Reads a vault and wires every venue that it has enabled. A client counts its readings from
this one on. -/
def connect (payer program vault : Key) (deployment : Deployment) (ceiling : Nat) :
    Call Client := do
  let record ← VaultRecord.load vault 1
  let handles ← deployment.wire record.account
  pure ⟨program, vault, payer, handles, ceiling, record⟩

/-- Reads the vault anew. If that fails, the record stays, and its version with it; else the new
record has the next version. -/
def reload (client : Client) : Dialogue (Except Error Unit × Client) := do
  match ← (VaultRecord.load client.vault (client.record.version + 1)).run with
  | .ok record => pure (.ok (), { client with record := record })
  | .error e => pure (.error e, client)

/-! ## Reads -/

def totalValue (client : Client) : UInt64 := client.record.totalValue

/-- The value recorded at a venue, unless it is out of date. -/
def venueValue (client : Client) (venue : Venue) : Except Error UInt64 :=
  let allocation := client.record.account.actual.get venue
  if !client.record.account.isEnabled venue then .error (.venueDisabled venue)
  else if allocation.lastUpdate.stale then .error (.staleRecord venue)
  else .ok allocation.value

/-- The shares that a deposit would bring. -/
def previewDeposit (client : Client) (amount : UInt64) : Except Error UInt64 :=
  client.record.rate.toShares amount .floor

/-- The shares that a withdrawal would cost. -/
def previewWithdraw (client : Client) (amount : UInt64) : Except Error UInt64 :=
  client.record.rate.toShares amount .floor

/-! ## What operations are built from -/

/-- The enabled venues that the client is wired to, in order. -/
def activeVenues (client : Client) : List Venue :=
  client.record.account.enabledVenues.filter client.handles.contains

/-- The encoder of a call that starts from the client's record. -/
def encoder (client : Client) : Encoder :=
  client.record.encoder client.program client.payer client.handles

end Client

end YieldVault
