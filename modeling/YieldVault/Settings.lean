-- The settings of a client, looked up by name: where the ledger is, which vault
-- is served, and where its keypair and deployment are kept.
import YieldVault.Error
import YieldVault.Rpc.Commitment
import YieldVault.Text.Blank
import YieldVault.Text.Numeral

namespace YieldVault

/-- Settings by name, as an environment holds them. -/
abbrev Lookup := String → Option String

structure Settings where
  endpoint : String
  commitment : Commitment
  vault : Key
  program : Key
  /-- The most instructions of a batch. -/
  ceiling : Nat
  keypairPath : String
  venuesPath : String
  deriving DecidableEq, Repr

namespace Settings

def defaultEndpoint : String := "http://127.0.0.1:8899"

def defaultCommitment : Commitment := .confirmed

def defaultCeiling : Nat := 6

def defaultKeypairPath : String := "keypair.json"

def defaultVenuesPath : String := "venues.json"

/-- A key that has to be set. Blanks around it do not count. -/
def key (lookup : Lookup) (name : String) : Except Error Key :=
  match lookup name with
  | none => .error (.config (.unset name))
  | some text => (Key.ofText (Text.trim text)).mapError fun fault => .config (.notKey name fault)

def commitmentOf : Option String → Except Error Commitment
  | none => .ok defaultCommitment
  | some level =>
    match Commitment.ofName? level with
    | some commitment => .ok commitment
    | none => .error (.config (.commitment level))

def ceilingOf : Option String → Except Error Nat
  | none => .ok defaultCeiling
  | some text =>
    match Text.unsigned? UInt64.size text with
    | none => .error (.config (.operandCount text))
    | some 0 => .error (.config .noOperands)
    | some ceiling => .ok ceiling

/-- Reads the settings. The first that is wrong is told. -/
def ofLookup (lookup : Lookup) : Except Error Settings := do
  let commitment ← commitmentOf (lookup "COMMITMENT")
  let vault ← key lookup "VAULT_ADDRESS"
  let program ← key lookup "VAULT_PROGRAM_ID"
  let ceiling ← ceilingOf (lookup "MAX_OPERANDS_PER_BATCH")
  pure {
    endpoint := (lookup "RPC_URL").getD defaultEndpoint
    commitment := commitment
    vault := vault
    program := program
    ceiling := ceiling
    keypairPath := (lookup "KEYPAIR_PATH").getD defaultKeypairPath
    venuesPath := (lookup "VENUES_CONFIG").getD defaultVenuesPath }

end Settings

/-! ## Keypair files -/

/-- The bytes that a list between brackets writes in decimal. -/
def Keypair.bytesOf? (text : String) : Option Bytes :=
  match (Text.trim text).toList with
  | '[' :: rest =>
    match rest.reverse with
    | ']' :: inner =>
      (Text.pieces ',' (String.ofList inner.reverse)).mapM fun piece =>
        (Text.unsigned? 256 (Text.trim piece)).map UInt8.ofNat
    | _ => none
  | _ => none

/-- The keypair of a file, if the file is there. -/
def Keypair.ofFile (path : String) (content : Option String) : Except Error Keypair :=
  match content with
  | none => .error (.config (.missingFile path))
  | some text =>
    match bytesOf? text >>= ofBytes? with
    | some pair => .ok pair
    | none => .error (.config (.unreadableFile path))

end YieldVault
