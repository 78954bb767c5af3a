-- Submission: the batches of one call, sent one after another. A batch is sent
-- once the one before it is confirmed; the first refusal ends the call, and what
-- was confirmed by then is kept.
import YieldVault.Ledger

namespace YieldVault

/-- How far a call has come. -/
structure Progress where
  /-- The batches attempted, refused ones included. -/
  attempted : Nat
  confirmed : List Confirmation
  deriving DecidableEq

namespace Progress

/-- Nothing attempted. -/
def start : Progress := ⟨0, []⟩

/-- One more batch attempted, in vain. -/
def fail (p : Progress) : Progress := { p with attempted := p.attempted + 1 }

/-- One more batch attempted, and confirmed. -/
def confirm (p : Progress) (kind : BatchKind) (signature : Signature) : Progress :=
  ⟨p.attempted + 1, p.confirmed ++ [⟨p.attempted, kind, signature⟩]⟩

end Progress

namespace Batch

/-- The keypair of a signer. -/
def keypairOf (keyring : List Keypair) (signer : Key) : Except Error Keypair :=
  match keyring.find? fun pair => pair.address == signer with
  | some pair => .ok pair
  | none => .error (.invalidInput (.missingKeypair signer))

/-- What is handed to the ledger for a batch: its instructions and the keypairs of its signers,
in order. -/
def ready (batch : Batch) (encoder : Encoder) (keyring : List Keypair) :
    Except Error (List Instruction × List Keypair) := do
  let instructions ← encoder.encode batch
  let signers ← batch.signers.mapM (keypairOf keyring)
  pure (instructions, signers)

/-- Sends a batch. -/
def send (batch : Batch) (encoder : Encoder) (keyring : List Keypair) (p : Progress) :
    Dialogue (Except Error Unit × Progress) :=
  match batch.ready encoder keyring with
  | .error e => pure (.error e, p.fail)
  | .ok (instructions, signers) => do
    match ← Dialogue.submit instructions signers with
    | .ok signature => pure (.ok (), p.confirm batch.kind signature)
    | .error r => pure (.error (.batchRejected p.attempted r.code r.reason), p.fail)

/-- Sends batches in order, up to the first failure. -/
def sendAll (encoder : Encoder) (keyring : List Keypair) :
    List Batch → Progress → Dialogue (Except Error Unit × Progress)
  | [], p => pure (.ok (), p)
  | batch :: rest, p => do
    match ← batch.send encoder keyring p with
    | (.error e, p) => pure (.error e, p)
    | (.ok (), p) => sendAll encoder keyring rest p

/-- Sends batches in order, going on after failures, and tells what came of each. -/
def sendEach (encoder : Encoder) (keyring : List Keypair) :
    List Batch → Progress → Dialogue (List (Except Error Unit) × Progress)
  | [], p => pure ([], p)
  | batch :: rest, p => do
    let (result, p) ← batch.send encoder keyring p
    let (results, p) ← sendEach encoder keyring rest p
    pure (result :: results, p)

end Batch

end YieldVault
