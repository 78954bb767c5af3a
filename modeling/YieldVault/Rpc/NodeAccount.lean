-- Accounts and simulations as a node reports them: data comes as text in one of
-- several encodings.
import YieldVault.Rpc.TransactionFault
import YieldVault.Rpc.Version
import YieldVault.Zstd.Frame

namespace YieldVault

/-- How a node writes the data of an account as text. -/
inductive DataEncoding
  | binary
  | base58
  | base64
  | jsonParsed
  | base64Zstd
  deriving DecidableEq, Repr

/-- The data of an account as a node reports it. -/
inductive NodeData
  /-- Base-58 text by itself. -/
  | plain (text : String)
  /-- The node has made something else of the data. -/
  | parsed
  | encoded (text : String) (encoding : DataEncoding)
  deriving DecidableEq, Repr

structure NodeAccount where
  lamports : UInt64
  data : NodeData
  owner : String
  deriving DecidableEq, Repr

/-- A simulated transaction as a node reports it. -/
structure NodeSimulation where
  fault : Option TransactionFault
  logs : Option (List String)
  accounts : Option (List (Option NodeAccount))
  deriving DecidableEq, Repr

/-! ## What is made of them -/

/-- The bytes of reported data, if they can be told. -/
def NodeData.bytes? : NodeData → Option Bytes
  | .plain text => Base58.decode? text
  | .encoded text .base58 => Base58.decode? text
  | .encoded text .base64 => (Base64.decode (Bytes.ofText text)).toOption
  | .encoded text .base64Zstd => (Base64.decode (Bytes.ofText text)).toOption.bind Zstd.decode?
  | _ => none

/-- The account, if its data and its owner can be told. -/
def NodeAccount.stored? (account : NodeAccount) : Option StoredAccount := do
  let data ← account.data.bytes?
  let owner ← (Key.ofText account.owner).toOption
  pure ⟨account.lamports, data, owner⟩

/-- The data of a simulated account, which has to be in base 64. -/
def NodeAccount.simulatedData (address : Key) (account : NodeAccount) : Except Error Bytes :=
  match account.data with
  | .encoded text .base64 =>
    (Base64.decode (Bytes.ofText text)).mapError fun fault =>
      .accountDecode address (.base64 fault)
  | _ => .error (.accountDecode address .notBase64)

/-- The data of the returned accounts, each beside the address that was asked for. -/
def returnedData : List (Option NodeAccount) → List Key → Except Error (List (Option Bytes))
  | account :: accounts, address :: addresses => do
    let data ← account.mapM (NodeAccount.simulatedData address)
    let rest ← returnedData accounts addresses
    pure (data :: rest)
  | _, _ => .ok []

/-- What a simulation came to. The accounts are looked at whether or not it was refused. -/
def NodeSimulation.outcome (s : NodeSimulation) (requested : List Key) :
    Except Error Simulation := do
  let accounts ← match s.accounts with
    | some returned => returnedData returned requested
    | none => pure (requested.map fun _ => none)
  pure ⟨s.fault.map TransactionFault.rejection, s.logs.getD [], accounts⟩

/-! ## Reading -/

open Json.Tree

def DataEncoding.read : Json → Reading DataEncoding :=
  readCase [.named "binary" .binary, .named "base58" .base58, .named "base64" .base64,
    .named "jsonParsed" .jsonParsed, .named "base64+zstd" .base64Zstd]

namespace NodeData

/-- What the node has made of data, and how long the data is. -/
def readParsed : Json → Reading NodeData :=
  readRecord "ParsedAccount" parsed
    [.checked "program" readText, .checked "parsed" readAny, .checked "space" readWord64]

def read : Json → Reading NodeData :=
  readEither "UiAccountData"
    [fun json => plain <$> readText json, readParsed,
      fun json => (readPair readText DataEncoding.read json).map fun (text, encoding) =>
        encoded text encoding]

end NodeData

namespace NodeAccount

def read : Json → Reading NodeAccount :=
  readRecord "UiAccount" ⟨0, .parsed, ""⟩
    [.required "lamports" readWord64 fun a lamports => { a with lamports },
      .required "data" NodeData.read fun a data => { a with data },
      .required "owner" readText fun a owner => { a with owner },
      .checked "executable" readBool, .checked "rentEpoch" readWord64,
      .mayBe "space" readWord64]

end NodeAccount

/-- A blockhash, and how long it is good for. -/
def readBlockhash : Json → Reading String :=
  readRecord "RpcBlockhash" ""
    [.required "blockhash" readText fun _ blockhash => blockhash,
      .checked "lastValidBlockHeight" readWord64]

namespace NodeSimulation

/-- The data that a program returns. -/
def readReturned : Json → Reading Unit :=
  readRecord "UiTransactionReturnData" ()
    [.checked "programId" readText,
      .checked "data" (readPair readText (readCase [.named "base64" ()]))]

/-- An instruction that a program runs, in one of three forms. -/
def readInner : Json → Reading Unit :=
  let depth : RecordField Unit := .mayBe "stackHeight" readWord32
  readEither "UiInstruction"
    [readRecord "UiCompiledInstruction" ()
        [.checked "programIdIndex" readByte, .checked "accounts" (readItems readByte),
          .checked "data" readText, depth],
      readRecord "ParsedInstruction" ()
        [.checked "program" readText, .checked "programId" readText,
          .checked "parsed" readAny, depth],
      readRecord "UiPartiallyDecodedInstruction" ()
        [.checked "programId" readText, .checked "accounts" (readItems readText),
          .checked "data" readText, depth]]

/-- The instructions that an instruction runs. -/
def readInners : Json → Reading Unit :=
  readRecord "UiInnerInstructions" ()
    [.checked "index" readByte, .checked "instructions" (readItems readInner)]

def read : Json → Reading NodeSimulation :=
  readRecord "RpcSimulateTransactionResult" ⟨none, none, none⟩
    [.optional "err" TransactionFault.read fun s fault => { s with fault := some fault },
      .optional "logs" (readItems readText) fun s logs => { s with logs := some logs },
      .optional "accounts" (readItems (readOption NodeAccount.read))
        fun s accounts => { s with accounts := some accounts },
      .mayBe "unitsConsumed" readWord64, .mayBe "loadedAccountsDataSize" readWord32,
      .mayBe "returnData" readReturned, .mayBe "innerInstructions" (readItems readInners),
      .mayBe "replacementBlockhash" readBlockhash]

end NodeSimulation

end YieldVault
