-- Records: a vault as it was last read, with the supply of its shares and the
-- part of its reserve that is at no venue. A record never changes; a later read
-- takes its place.
import YieldVault.Account
import YieldVault.Instruction
import YieldVault.Rate

namespace YieldVault

/-- A vault as it was read at some time. -/
structure VaultRecord where
  address : Key
  /-- The place of this reading among those of its client that succeeded, from 1. It is counted
  without a bound, and for each client apart: where the clients of one process share a counter of
  64 bits, the versions of one client grow as well, but leave out those of the others. -/
  version : Nat
  account : VaultAccount
  shareSupply : UInt64
  /-- The reserve that is at no venue. -/
  unallocated : UInt64
  deriving DecidableEq

namespace VaultRecord

/-- The supply of a mint, from its account's data. -/
def mintSupply (mint : Key) (data : Bytes) : Except Error UInt64 :=
  (Token.mintSupply data).mapError fun fault => .accountDecode mint (.token fault)

/-- The amount in a token account, from its data. -/
def heldAmount (account : Key) (data : Bytes) : Except Error UInt64 :=
  (Token.heldAmount data).mapError fun fault => .accountDecode account (.token fault)

/-- The record of a vault account beside the data of its share mint and its reserve account. The
mint is looked at first. -/
def assemble (address : Key) (version : Nat) (account : VaultAccount)
    (mintData reserveData : Bytes) : Except Error VaultRecord := do
  let shareSupply ← mintSupply account.shareMint mintData
  let unallocated ← heldAmount account.reserveToken reserveData
  pure ⟨address, version, account, shareSupply, unallocated⟩

def totalValue (record : VaultRecord) : UInt64 := record.account.value.value

def denomination (record : VaultRecord) : Key := record.account.reserveMint

/-- What a share is worth. -/
def rate (record : VaultRecord) : ExchangeRate := .ofTotals record.totalValue record.shareSupply

/-- The addresses that instructions on this vault need. -/
def keys (record : VaultRecord) (program : Key) : VaultKeys where
  program := program
  vault := record.address
  authority := record.account.authority
  reserveToken := record.account.reserveToken
  shareMint := record.account.shareMint
  reserveMint := record.account.reserveMint

/-- Refuses what a halted vault's program would refuse. Of several activities the first is named
in the refusal, whichever of them is halted. -/
def ensureRunning (record : VaultRecord) : List Activity → Except Error Unit
  | [] => .ok ()
  | first :: rest =>
    if (first :: rest).any record.account.isHalted then .error (.vaultHalted first)
    else .ok ()

end VaultRecord

end YieldVault
