-- Loading: a vault is read in three questions, first its account, then the share
-- mint and the reserve account that the account names.
import YieldVault.Ledger
import YieldVault.Record

namespace YieldVault

namespace Call

/-- Asks for an account. -/
def account (address : Key) : Call (Option StoredAccount) := ExceptT.mk (Dialogue.account address)

/-- Asks what keeps an account of some width. -/
def rent (width : Nat) : Call UInt64 := ExceptT.mk (Dialogue.rent width)

/-- Asks for a run without effect. -/
def simulate (instructions : List Instruction) (accounts : List Key) : Call Simulation :=
  ExceptT.mk (Dialogue.simulate instructions accounts)

/-- The data of an account that has to be there. -/
def accountData (address : Key) : Call Bytes := do
  match ← account address with
  | some stored => pure stored.data
  | none => throw (.accountDecode address .absent)

end Call

/-- Reads a vault. The version is the one that the record is to have: the count of readings is kept
by the reader, not here. -/
def VaultRecord.load (vault : Key) (version : Nat) : Call VaultRecord := do
  match ← Call.account vault with
  | none => throw (.vaultNotFound vault)
  | some stored =>
    let account ← VaultAccount.decode vault stored.data
    let mintData ← Call.accountData account.shareMint
    let reserveData ← Call.accountData account.reserveToken
    VaultRecord.assemble vault version account mintData reserveData

end YieldVault
