-- The vault account as the ledger stores it: its fields, how they stand in the
-- account's data, and what its flags say about venues and activities.
import YieldVault.Allocation
import YieldVault.Instruction.Tag

namespace YieldVault

/-! ## Fields -/

/-- When a value was last written. -/
structure LastUpdate where
  slot : UInt64
  stale : Bool
  padding : Vector UInt8 7
  deriving DecidableEq, Repr

/-- A value and when it was last written. -/
structure Allocation where
  value : UInt64
  lastUpdate : LastUpdate
  deriving DecidableEq, Repr

/-- A value written at a slot, and not stale. -/
def Allocation.at (value slot : UInt64) : Allocation :=
  ⟨value, ⟨slot, false, Vector.replicate 7 0⟩⟩

/-- Where a vault's weights come from. -/
inductive RebalanceMode
  /-- The program works them out. -/
  | calculator
  /-- Proposed weights stand if they earn more. -/
  | proofChecker
  deriving DecidableEq, Repr

/-- The program's own way to weights. -/
inductive Strategy
  | maxYield
  | equalAllocation
  deriving DecidableEq, Repr

/-- The settings of a vault that its owner chose. -/
structure VaultConfig where
  depositCap : UInt64
  carryFeeBps : UInt32
  managementFeeBps : UInt32
  referralFeePct : UInt8
  allocationCapPct : UInt8
  mode : RebalanceMode
  strategy : Strategy
  padding : Vector UInt32 3
  deriving DecidableEq, Repr

/-- A vault account. -/
structure VaultAccount where
  version : Vector UInt8 3
  owner : Key
  authority : Key
  authoritySeed : Key
  authorityBump : UInt8
  /-- The reserve account of each venue. -/
  reserves : PerVenue Key
  /-- Where the vault keeps what is at no venue. -/
  reserveToken : Key
  /-- Where the vault keeps its claims on each venue. -/
  holdings : PerVenue Key
  shareMint : Key
  reserveMint : Key
  feeReceiver : Key
  referralFeeReceiver : Key
  haltFlags : UInt16
  sourceFlags : UInt16
  /-- The total value, in units of the reserve. -/
  value : Allocation
  /-- The values that a rebalance aims at and reconciles bring about. -/
  target : PerVenue Allocation
  config : VaultConfig
  actual : PerVenue Allocation
  reserved : Vector UInt32 28
  deriving DecidableEq, Repr

/-! ## Layout -/

namespace Layout

def lastUpdate : Layout LastUpdate :=
  (uint64.pair (bool.pair (uint8.repeated 7))).iso
    (fun t => ⟨t.1, t.2.1, t.2.2⟩) (fun u => (u.slot, u.stale, u.padding))

def allocation : Layout Allocation :=
  (uint64.pair lastUpdate).iso (fun t => ⟨t.1, t.2⟩) (fun a => (a.value, a.lastUpdate))

def vaultConfig : Layout VaultConfig :=
  (uint64.pair <| uint32.pair <| uint32.pair <| uint8.pair <| uint8.pair <|
    (choice [RebalanceMode.calculator, .proofChecker]).pair <|
    (choice [Strategy.maxYield, .equalAllocation]).pair <| uint32.repeated 3).iso
    (fun (cap, carry, management, referral, allocation, mode, strategy, padding) =>
      ⟨cap, carry, management, referral, allocation, mode, strategy, padding⟩)
    (fun c => (c.depositCap, c.carryFeeBps, c.managementFeeBps, c.referralFeePct,
      c.allocationCapPct, c.mode, c.strategy, c.padding))

def vaultAccount : Layout VaultAccount :=
  ((uint8.repeated 3).pair <| key.pair <| key.pair <| key.pair <| uint8.pair <|
    (perVenue key).pair <| key.pair <| (perVenue key).pair <|
    key.pair <| key.pair <| key.pair <| key.pair <|
    uint16.pair <| uint16.pair <| allocation.pair <| (perVenue allocation).pair <|
    vaultConfig.pair <| (perVenue allocation).pair <| uint32.repeated 28).iso
    (fun (version, owner, authority, authoritySeed, authorityBump, reserves, reserveToken,
        holdings, shareMint, reserveMint, feeReceiver, referralFeeReceiver, haltFlags,
        sourceFlags, value, target, config, actual, reserved) =>
      ⟨version, owner, authority, authoritySeed, authorityBump, reserves, reserveToken,
        holdings, shareMint, reserveMint, feeReceiver, referralFeeReceiver, haltFlags,
        sourceFlags, value, target, config, actual, reserved⟩)
    (fun a => (a.version, a.owner, a.authority, a.authoritySeed, a.authorityBump, a.reserves,
      a.reserveToken, a.holdings, a.shareMint, a.reserveMint, a.feeReceiver,
      a.referralFeeReceiver, a.haltFlags, a.sourceFlags, a.value, a.target, a.config,
      a.actual, a.reserved))

end Layout

namespace VaultAccount

/-- The eight bytes that open the data of every vault account. -/
def tag : Bytes := accountTag "Vault"

/-- The account's data. -/
def encode (account : VaultAccount) : Bytes := tag ++ Layout.vaultAccount.write account

/-- Reads an account's data. The opening tag is looked at first; bytes past the layout are of
no account. -/
def decode (address : Key) (data : Bytes) : Except Error VaultAccount :=
  if data.take 8 = tag then
    match Layout.vaultAccount.read (data.drop 8) with
    | .ok (account, _) => .ok account
    | .error fault => .error (.accountDecode address (.layout fault))
  else .error (.accountDecode address .discriminator)

end VaultAccount

/-! ## Accounts of a venue -/

namespace VaultAccount

/-- The reserve account of a venue. -/
def reserve (account : VaultAccount) : Venue → Key
  | .solend => account.reserves.solend
  | .port => account.reserves.port
  | .jet => account.reserves.jet

/-- Where the vault keeps its claims on a venue. -/
def holding (account : VaultAccount) : Venue → Key
  | .solend => account.holdings.solend
  | .port => account.holdings.port
  | .jet => account.holdings.jet

end VaultAccount

/-! ## Flags -/

/-- The bit of a venue in a vault's source flags. -/
def Venue.bit : Venue → UInt16
  | .solend => 1
  | .port => 2
  | .jet => 4

namespace Activity

/-- The bit of an activity in a vault's halt flags. -/
def bit : Activity → UInt16
  | reconciles => 1
  | refreshes => 2
  | transfers => 4

/-- Every activity, first the one that a refusal of several names. -/
def all : List Activity := [transfers, reconciles, refreshes]

/-- The activities of a set of bits. Other bits stand for none. -/
def ofBits (bits : UInt16) : List Activity := all.filter fun a => bits &&& a.bit != 0

end Activity

namespace VaultAccount

/-- The bits that have a meaning, in either set of flags. -/
def knownBits : UInt16 := 7

def haltBits (account : VaultAccount) : UInt16 := account.haltFlags &&& knownBits

def sourceBits (account : VaultAccount) : UInt16 := account.sourceFlags &&& knownBits

def isHalted (account : VaultAccount) (activity : Activity) : Bool :=
  account.haltBits &&& activity.bit != 0

/-- Whether the vault may allocate to a venue. -/
def isEnabled (account : VaultAccount) (venue : Venue) : Bool :=
  account.sourceBits &&& venue.bit != 0

/-- The venues that the vault may allocate to, in order. -/
def enabledVenues (account : VaultAccount) : List Venue := Venue.all.filter account.isEnabled

/-- The values at the enabled venues, in units of the vault's reserve. -/
def valuesOf (account : VaultAccount) (table : PerVenue Allocation) : AllocationSet where
  denomination := account.reserveMint
  values := PerVenue.ofFn fun v =>
    if account.isEnabled v then some (table.get v).value else none

def actualSet (account : VaultAccount) : AllocationSet := account.valuesOf account.actual

def targetSet (account : VaultAccount) : AllocationSet := account.valuesOf account.target

end VaultAccount

end YieldVault
