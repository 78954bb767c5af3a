-- Encoding: what the operations of a batch are as instructions. A venue without
-- a handle cannot be encoded; everything else can.
import YieldVault.Adapter
import YieldVault.Batch

namespace YieldVault

/-- What it takes to turn operations into instructions. -/
structure Encoder where
  keys : VaultKeys
  handles : VenueMap Handle
  /-- The reserve of every venue, as the vault records them. -/
  reserves : PerVenue Key
  payer : Key
  deriving DecidableEq

namespace Encoder

/-- The handle of a venue. -/
def handle (encoder : Encoder) (venue : Venue) : Except Error Handle :=
  match encoder.handles.get? venue with
  | some handle => .ok handle
  | none => .error (.venueDisabled venue)

/-- The instructions of one operation. -/
def operation (encoder : Encoder) : Operation → Except Error (List Instruction)
  | .refresh venue => (encoder.handle venue).map fun h => [h.refresh encoder.keys]
  | .consolidate => .ok [.consolidate encoder.keys]
  | .rebalance weights => .ok [.rebalance encoder.keys encoder.reserves weights]
  | .reconcile step =>
    (encoder.handle step.venue).map fun h => [h.reconcile encoder.keys step.option]
  | .deposit amount source shareAccount =>
    .ok [.deposit encoder.keys encoder.payer source shareAccount amount]
  | .withdraw shares shareAccount destination =>
    .ok [.withdraw encoder.keys encoder.payer shareAccount destination shares]
  | .createAssociated mint => .ok [.createAssociated encoder.payer mint]
  | .wrap account lamports =>
    .ok [.createAccount encoder.payer account lamports Token.accountWidth Key.tokenProgram,
      .initializeHolding account Key.nativeMint encoder.payer]
  | .unwrap account => .ok [.closeHolding account encoder.payer encoder.payer]

/-- The instructions of operations, in order. -/
def operations (encoder : Encoder) : List Operation → Except Error (List Instruction)
  | [] => .ok []
  | op :: rest => do
    let first ← encoder.operation op
    let others ← encoder.operations rest
    pure (first ++ others)

/-- The instructions of a batch. -/
def encode (encoder : Encoder) (batch : Batch) : Except Error (List Instruction) :=
  encoder.operations batch.operations

end Encoder

end YieldVault
