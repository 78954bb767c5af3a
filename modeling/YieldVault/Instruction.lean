-- Instructions: a program, the accounts it is handed, and its data. The
-- builders here are those of the vault's own program and of the token, account
-- and associated-account programs that a deposit or a withdrawal leans on.
import YieldVault.Instruction.Tag
import YieldVault.Weights

namespace YieldVault

/-- An account handed to a program, and what the program may do with it. -/
structure AccountMeta where
  key : Key
  signer : Bool
  writable : Bool
  deriving DecidableEq, Repr

namespace AccountMeta

/-- An account that is read. -/
def read (key : Key) : AccountMeta := ⟨key, false, false⟩

/-- An account that is written. -/
def write (key : Key) : AccountMeta := ⟨key, false, true⟩

/-- An account that signs and is read. -/
def sign (key : Key) : AccountMeta := ⟨key, true, false⟩

/-- An account that signs and is written. -/
def signWrite (key : Key) : AccountMeta := ⟨key, true, true⟩

end AccountMeta

/-- Weights as the vault's program takes them: a field for each venue. -/
structure WeightsArgument where
  solend : UInt16
  port : UInt16
  jet : UInt16
  deriving DecidableEq, Repr

namespace WeightsArgument

/-- The fields of proposed weights. A venue without a weight has zero. -/
def ofWeights (weights : Weights) : WeightsArgument where
  solend := weights.bps .solend
  port := weights.bps .port
  jet := weights.bps .jet

/-- Field after field, two bytes for each. -/
def bytes (argument : WeightsArgument) : Bytes :=
  Bytes.ofNat 2 argument.solend.toNat ++ Bytes.ofNat 2 argument.port.toNat ++
    Bytes.ofNat 2 argument.jet.toNat

end WeightsArgument

structure Instruction where
  program : Key
  accounts : List AccountMeta
  data : Bytes
  deriving DecidableEq, Repr

/-- The keys that must sign an instruction. -/
def Instruction.signers (i : Instruction) : List Key :=
  (i.accounts.filter (·.signer)).map (·.key)

/-- The addresses that every instruction on a vault needs. -/
structure VaultKeys where
  program : Key
  vault : Key
  authority : Key
  reserveToken : Key
  shareMint : Key
  reserveMint : Key
  deriving DecidableEq, Repr

namespace Instruction

open AccountMeta (read write sign signWrite)

/-! ## The vault's program -/

/-- An instruction of the vault's program: the tag of its name, then its arguments. -/
def named (keys : VaultKeys) (name : String) (arguments : Bytes) (accounts : List AccountMeta) :
    Instruction :=
  ⟨keys.program, accounts, instructionTag name ++ arguments⟩

/-- Works out the vault's total from the refreshed values of its venues. -/
def consolidate (keys : VaultKeys) : Instruction :=
  named keys "consolidate_refresh" []
    [write keys.vault, read keys.authority, read keys.reserveToken, write keys.shareMint,
      read Key.tokenProgram]

/-- The weights as arguments. Every field is zero where none are proposed. -/
def weightBytes (weights : Option Weights) : Bytes :=
  ((weights.map WeightsArgument.ofWeights).getD ⟨0, 0, 0⟩).bytes

/-- Commits target allocations. Without weights the program's own strategy decides, and no
venue is weighted in the arguments. -/
def rebalance (keys : VaultKeys) (reserves : PerVenue Key) (weights : Option Weights) :
    Instruction :=
  named keys "rebalance" (weightBytes weights)
    ([write keys.vault] ++ Venue.all.map (fun v => read (reserves.get v)) ++ [read Key.clock])

/-- Pays an amount of the reserve in, for shares. -/
def deposit (keys : VaultKeys) (payer source shareAccount : Key) (amount : UInt64) :
    Instruction :=
  named keys "deposit" (Bytes.ofNat 8 amount.toNat)
    [write keys.vault, read keys.authority, write keys.reserveToken, write keys.shareMint,
      write source, write shareAccount, sign payer, read Key.tokenProgram, read Key.clock]

/-- Burns shares, and pays their part of the reserve out. -/
def withdraw (keys : VaultKeys) (payer shareAccount destination : Key) (shares : UInt64) :
    Instruction :=
  named keys "withdraw" (Bytes.ofNat 8 shares.toNat)
    [write keys.vault, read keys.authority, write keys.reserveToken, write keys.shareMint,
      write shareAccount, write destination, sign payer, read Key.tokenProgram,
      read Key.clock]

/-! ## Accounts -/

/-- Creates the payer's associated account for a mint, unless it is there. -/
def createAssociated (payer mint : Key) : Instruction :=
  ⟨Key.associatedProgram,
    [signWrite payer, write (associatedAccount payer mint), read payer, read mint,
      read Key.systemProgram, read Key.tokenProgram],
    [1]⟩

/-- Creates an account of some width, funded by the payer, for a program to own. -/
def createAccount (payer account : Key) (lamports : UInt64) (width : Nat) (owner : Key) :
    Instruction :=
  ⟨Key.systemProgram, [signWrite payer, signWrite account],
    Bytes.ofNat 4 0 ++ Bytes.ofNat 8 lamports.toNat ++ Bytes.ofNat 8 width ++ owner.bytes⟩

/-- Makes a new account a token account of a mint. -/
def initializeHolding (account mint owner : Key) : Instruction :=
  ⟨Key.tokenProgram, [write account, read mint], 18 :: owner.bytes⟩

/-- Closes a token account; what it holds goes to the destination. -/
def closeHolding (account destination owner : Key) : Instruction :=
  ⟨Key.tokenProgram, [write account, write destination, sign owner], [9]⟩

end Instruction

end YieldVault
