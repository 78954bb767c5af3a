-- A ledger behind a node: what the node is asked, in which order, and what is
-- made of its answers. Answers come one after another; each question takes the
-- next.
import YieldVault.Rpc.Commitment
import YieldVault.Rpc.NodeAccount

namespace YieldVault

/-! ## Questions -/

/-- What a node is asked. Transactions and signatures are left open. -/
inductive NodeRequest
  | accountInfo (address : Key) (commitment : Commitment)
  | rent (width : Nat)
  | simulate (accounts : List Key) (commitment : Commitment)
  | latestBlockhash (commitment : Commitment)
  | send (commitment : Commitment)
  | signatureStatus
  | blockhashValid (blockhash : Key)
  deriving DecidableEq, Repr

namespace NodeRequest

/-- The name of the question. -/
def method : NodeRequest → String
  | accountInfo .. => "getAccountInfo"
  | rent _ => "getMinimumBalanceForRentExemption"
  | simulate .. => "simulateTransaction"
  | latestBlockhash _ => "getLatestBlockhash"
  | send _ => "sendTransaction"
  | signatureStatus => "getSignatureStatuses"
  | blockhashValid _ => "isBlockhashValid"

def level (commitment : Commitment) : String × Json := ("commitment", .text commitment.name)

/-- What is sent along with the question, around the text of the transaction or its signature. -/
def params (transaction signatures : Json) : NodeRequest → Json
  | accountInfo address commitment =>
    .array [.text address.text,
      .ofFields [level commitment, ("encoding", .text "base64+zstd")]]
  | rent width => .array [.nat width]
  | simulate accounts commitment =>
    .array [transaction, .ofFields [
      ("accounts", .ofFields [("addresses", .array (accounts.map fun a => .text a.text)),
        ("encoding", .text "base64")]),
      level commitment, ("encoding", .text "base64"), ("innerInstructions", .bool false),
      ("replaceRecentBlockhash", .bool true), ("sigVerify", .bool false)]]
  | latestBlockhash commitment => .array [.ofFields [level commitment]]
  | send commitment =>
    .array [transaction, .ofFields [("encoding", .text "base64"),
      ("preflightCommitment", .text commitment.name), ("skipPreflight", .bool false)]]
  | signatureStatus => .array [signatures]
  | blockhashValid blockhash => .array [.text blockhash.text, .ofFields [level .processed]]

end NodeRequest

/-! ## Answers -/

/-- Why a question got no result. -/
inductive NodeFault
  /-- It did not get through. -/
  | transport (reason : String)
  /-- The transaction failed. -/
  | transaction (fault : TransactionFault)
  /-- The node answered with an error, perhaps with a simulation that it ran first. -/
  | refused (code : Int) (reason : String) (simulation : Option NodeSimulation)
  /-- The result has not the shape that was expected. -/
  | shape (reason : String)
  /-- The node stopped to know the transaction. -/
  | unconfirmed
  deriving DecidableEq, Repr

namespace NodeFault

/-- How the logs of a simulation are shown. -/
def logText (logs : List String) : String :=
  if logs.isEmpty then ""
  else s!"{logs.length} log messages:\n" ++ String.join (logs.map fun log => s!"  {log}\n")

/-- The wording of a fault. -/
def message : NodeFault → String
  | transport reason => s!"Custom: {reason}"
  | transaction fault => fault.message
  | refused code reason simulation =>
    s!"RPC response error {code}: {reason}; " ++ logText ((simulation.bind (·.logs)).getD [])
  | shape reason => reason
  | unconfirmed =>
    "unable to confirm transaction. This can happen in situations such as "
      ++ "transaction expiration and insufficient fee-payer funds"

/-- The fault of the transaction behind a fault. -/
def transactionFault? : NodeFault → Option TransactionFault
  | transaction fault => some fault
  | refused _ _ simulation => simulation.bind (·.fault)
  | _ => none

/-- The fault as a refusal of a batch. -/
def rejection (fault : NodeFault) : Rejection :=
  ⟨fault.transactionFault?.bind (·.customCode?), fault.message⟩

end NodeFault

/-- What a node answers. -/
abbrev NodeReply := Except NodeFault Json

/-- A line to a node: the answers that are to come, and the questions so far, the last first. -/
structure NodeLine where
  replies : List NodeReply
  asked : List NodeRequest

namespace NodeLine

/-- Asks, and reads the result. -/
def ask {α : Type} (line : NodeLine) (request : NodeRequest)
    (read : Json → Json.Tree.Reading α) : Except NodeFault α × NodeLine :=
  let reply := match line.replies with
    | [] => .error (.transport "no answer")
    | reply :: _ => reply.bind fun json => (read json).mapError .shape
  (reply, ⟨line.replies.tail, request :: line.asked⟩)

end NodeLine

/-! ## Statuses -/

/-- How far a transaction has come. -/
structure NodeStatus where
  confirmations : Option Nat
  fault : Option TransactionFault
  level : Option Commitment
  deriving DecidableEq, Repr

/-- Whether a status is as settled as it has to be. Without a level, more than one confirmation
counts as confirmed, and no number of them as final. -/
def NodeStatus.satisfies (status : NodeStatus) : Commitment → Bool
  | .processed => true
  | .confirmed =>
    match status.level with
    | some level => level != .processed
    | none => status.confirmations.all (1 < ·)
  | .finalized => status.confirmations.isNone

/-! ## Reading -/

open Json.Tree

/-- The version of a node. -/
def readVersion (json : Json) : Reading Unit := do
  let text ← readText json
  (Version.check text).mapError (·.message)

/-- The slot that a value is true of. -/
def readContext : Json → Reading Unit :=
  readRecord "RpcResponseContext" ()
    [.checked "slot" readWord64, .mayBe "apiVersion" readVersion]

/-- A value beside the slot that it is true of. -/
def readResponse {α : Type} (blank : α) (value : RecordField α) : Json → Reading α :=
  readRecord "Response" blank [.checked "context" readContext, value]

/-- A value that must be there. -/
def readValue {α : Type} (blank : α) (read : Json → Reading α) : Json → Reading α :=
  readResponse blank (.required "value" read fun _ value => value)

/-- A value that may be missing. -/
def readMaybe {α : Type} (read : Json → Reading α) : Json → Reading (Option α) :=
  readResponse none (.optional "value" read fun _ value => some value)

namespace NodeStatus

/-- What came of a transaction. -/
def readOutcome : Json → Reading (Option TransactionFault) :=
  readCase [⟨"Ok", .one fun json => (readNothing json).map fun _ => none⟩,
    ⟨"Err", .one fun json => some <$> TransactionFault.read json⟩]

def readLevel : Json → Reading Commitment :=
  readCase (Commitment.all.map fun level => .named level.name level)

def read : Json → Reading NodeStatus :=
  readRecord "TransactionStatus" ⟨none, none, none⟩
    [.checked "slot" readWord64,
      .optional "confirmations" readCount fun s count => { s with confirmations := some count },
      .required "status" readOutcome fun s fault => { s with fault },
      .mayBe "err" TransactionFault.read,
      .optional "confirmationStatus" readLevel fun s level => { s with level := some level }]

/-- The first of a list of statuses, if the node knows it. -/
def readFirst (json : Json) : Reading (Option NodeStatus) := do
  let statuses ← readItems (readOption read) json
  pure statuses.head?.join

end NodeStatus

/-- The latest blockhash. It has 32 bytes, as a key has. -/
def readLatest (json : Json) : Reading Key := do
  let text ← readValue "" readBlockhash json
  (Key.ofText text).mapError fun _ => "parse error: expected Hash"

/-- What a node returns for a transaction that it sends on: the transaction's own signature. -/
def readSent (own : String) (json : Json) : Reading Unit := do
  let text ← readText json
  if text = own then pure ()
  else
    match Signature.ofText text with
    | .error .wrongSize =>
      throw "parse error: expected string decoded to wrong size for signature"
    | .error .notBase58 => throw "parse error: expected failed to decode string to signature"
    | .ok other =>
      throw <| s!"RPC request error: RPC node returned mismatched signature {other.text}, "
        ++ s!"expected {own}"

/-! ## The ledger -/

/-- A client of a node: who pays, and how settled answers have to be. -/
structure NodeClient where
  payer : Keypair
  commitment : Commitment
  deriving DecidableEq

namespace NodeClient

/-- What does not get through is told as such. -/
def transportError (fault : NodeFault) : Error := .transport fault.message

/-- Asks for an account. One whose data cannot be told counts as absent. -/
def account (client : NodeClient) (address : Key) (line : NodeLine) :
    Except Error (Option StoredAccount) × NodeLine :=
  let (reply, line) := line.ask (.accountInfo address client.commitment)
    (readMaybe NodeAccount.read)
  ((reply.mapError transportError).map (·.bind NodeAccount.stored?), line)

/-- Asks what keeps an account of some width. -/
def rent (width : Nat) (line : NodeLine) : Except Error UInt64 × NodeLine :=
  let (reply, line) := line.ask (.rent width) readWord64
  (reply.mapError transportError, line)

/-- Runs a transaction without effect. -/
def simulate (client : NodeClient) (accounts : List Key) (line : NodeLine) :
    Except Error Simulation × NodeLine :=
  let (reply, line) := line.ask (.simulate accounts client.commitment)
    (readValue ⟨none, none, none⟩ NodeSimulation.read)
  ((reply.mapError transportError).bind (·.outcome accounts), line)

/-! ### Submission -/

/-- Why a transaction could not be signed. -/
inductive SigningFault
  /-- Somebody signs who need not. -/
  | mismatch
  /-- Somebody who has to sign does not. -/
  | missing
  deriving DecidableEq, Repr

def SigningFault.message : SigningFault → String
  | .mismatch => "keypair-pubkey mismatch"
  | .missing => "not enough signers"

/-- Who has to sign instructions: the payer, and all that they name. -/
def requiredSigners (payer : Key) (instructions : List Instruction) : List Key :=
  payer :: instructions.flatMap Instruction.signers

/-- Signs instructions, if the signers beside the payer are just those that have to sign. -/
def sign (payer : Key) (instructions : List Instruction) (signers : List Key) :
    Except SigningFault Unit :=
  let required := requiredSigners payer instructions
  if !signers.all required.contains then .error .mismatch
  else if !required.all (payer :: signers).contains then .error .missing
  else .ok ()

/-- Asks for the status of a transaction until there is one that is settled enough. As long as
there is none, its blockhash has to be valid. -/
def awaitStatus (client : NodeClient) (blockhash : Key) :
    (fuel : Nat) → NodeLine → Except NodeFault Unit × NodeLine
  | 0, line => (.error .unconfirmed, line)
  | fuel + 1, line =>
    let (reply, line) := line.ask .signatureStatus (readValue none NodeStatus.readFirst)
    match reply.map (·.filter (·.satisfies client.commitment)) with
    | .error fault => (.error fault, line)
    | .ok (some status) =>
      match status.fault with
      | some fault => (.error (.transaction fault), line)
      | none => (.ok (), line)
    | .ok none =>
      let (valid, line) := line.ask (.blockhashValid blockhash) (readValue false readBool)
      match valid with
      | .error fault => (.error fault, line)
      | .ok false => (.error .unconfirmed, line)
      | .ok true => awaitStatus client blockhash fuel line

/-- Sends a signed transaction and waits for its status. -/
def sendAndAwait (client : NodeClient) (blockhash : Key) (signature : String)
    (line : NodeLine) : Except NodeFault Unit × NodeLine :=
  let (sent, line) := line.ask (.send client.commitment) (readSent signature)
  match sent with
  | .error fault => (.error fault, line)
  | .ok _ => client.awaitStatus blockhash (line.replies.length + 1) line

/-- Signs, sends, and waits until a batch is taken or refused. The payer's signature, which names
the transaction, is given as text. -/
def submit (client : NodeClient) (instructions : List Instruction) (signers : List Keypair)
    (signature : String) (line : NodeLine) : Except Rejection Unit × NodeLine :=
  let (blockhash, line) := line.ask (.latestBlockhash client.commitment) readLatest
  match blockhash with
  | .error fault => (.error fault.rejection, line)
  | .ok blockhash =>
    match sign client.payer.address instructions (signers.map (·.address)) with
    | .error fault => (.error ⟨none, fault.message⟩, line)
    | .ok () =>
      let (outcome, line) := client.sendAndAwait blockhash signature line
      (outcome.mapError NodeFault.rejection, line)

end NodeClient

end YieldVault
