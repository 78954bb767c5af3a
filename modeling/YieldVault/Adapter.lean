-- Adapters: the accounts through which each venue is reached, and the two
-- instructions a vault ever sends about a venue, a refresh and a reconcile.
import YieldVault.Instruction
import YieldVault.Movement

namespace YieldVault

/-! ## Wiring -/

structure SolendWiring where
  program : Key
  market : Key
  marketAuthority : Key
  claimMint : Key
  liquiditySupply : Key
  pyth : Key
  switchboard : Key
  deriving DecidableEq, Repr

structure PortWiring where
  program : Key
  market : Key
  marketAuthority : Key
  claimMint : Key
  liquiditySupply : Key
  /-- Reserves without an oracle are refreshed on their own. -/
  oracle : Option Key
  deriving DecidableEq, Repr

structure JetWiring where
  program : Key
  market : Key
  marketAuthority : Key
  claimMint : Key
  liquiditySupply : Key
  feeNoteVault : Key
  pyth : Key
  deriving DecidableEq, Repr

/-- The accounts of one venue, apart from those that a vault records about it. -/
inductive Adapter
  | solend (wiring : SolendWiring)
  | port (wiring : PortWiring)
  | jet (wiring : JetWiring)
  deriving DecidableEq, Repr

namespace Adapter

/-- The venue that an adapter reaches. -/
def venue : Adapter → Venue
  | solend _ => .solend
  | port _ => .port
  | jet _ => .jet

/-- The venue's own program. -/
def program : Adapter → Key
  | solend w => w.program
  | port w => w.program
  | jet w => w.program

/-- What the vault's program calls the refresh of the venue. -/
def refreshName : Adapter → String
  | solend _ => "refresh_solend"
  | port _ => "refresh_port"
  | jet _ => "refresh_jet"

/-- What the vault's program calls the reconcile of the venue. -/
def reconcileName : Adapter → String
  | solend _ => "reconcile_solend"
  | port _ => "reconcile_port"
  | jet _ => "reconcile_jet"

end Adapter

/-! ## Handles -/

/-- A venue as a vault uses it: its adapter, and the two accounts that the vault records. -/
structure Handle where
  adapter : Adapter
  reserve : Key
  /-- The vault's claims on the venue. -/
  holding : Key
  deriving DecidableEq, Repr

namespace Handle

open AccountMeta (read write)

/-- The accounts of a refresh. -/
def refreshAccounts (handle : Handle) (keys : VaultKeys) : List AccountMeta :=
  let vault := write keys.vault
  let holding := read handle.holding
  match handle.adapter with
  | .solend w =>
    [vault, holding, read w.program, write handle.reserve, read w.pyth, read w.switchboard,
      read Key.clock]
  | .port w =>
    [vault, holding, read w.program, write handle.reserve, read Key.clock]
      ++ w.oracle.toList.map read
  | .jet w =>
    [vault, holding, read w.program, write w.market, read w.marketAuthority,
      write handle.reserve, write w.feeNoteVault, write w.claimMint, read w.pyth,
      read Key.tokenProgram, read Key.clock]

/-- Brings the venue's interest, and the value that the vault records for it, up to date. -/
def refresh (handle : Handle) (keys : VaultKeys) : Instruction :=
  .named keys handle.adapter.refreshName [] (handle.refreshAccounts keys)

/-- The accounts of a reconcile. -/
def reconcileAccounts (handle : Handle) (keys : VaultKeys) : List AccountMeta :=
  [write keys.vault, read keys.authority, write keys.reserveToken, write handle.holding] ++
  match handle.adapter with
  | .solend w =>
    [read w.program, read w.marketAuthority, read w.market, write handle.reserve,
      write w.claimMint, write w.liquiditySupply, read Key.clock, read Key.tokenProgram]
  | .port w =>
    [read w.program, read w.marketAuthority, read w.market, write handle.reserve,
      write w.claimMint, write w.liquiditySupply, read Key.clock, read Key.tokenProgram]
  | .jet w =>
    [read w.program, read w.market, read w.marketAuthority, write handle.reserve,
      write w.liquiditySupply, write w.claimMint, read Key.tokenProgram]

/-- Moves capital between the vault and the venue: to the committed target if the option is
zero, otherwise exactly that much out of the venue. -/
def reconcile (handle : Handle) (keys : VaultKeys) (option : UInt64) : Instruction :=
  .named keys handle.adapter.reconcileName (Bytes.ofNat 8 option.toNat)
    (handle.reconcileAccounts keys)

end Handle

end YieldVault
