-- Packing: operations laid out in batches under a ceiling on the instructions of
-- one batch. Reconciles are packed greedily and in order, each batch opening
-- with the refreshes of its own venues.
import YieldVault.Batch

namespace YieldVault

namespace Batch

/-! ## One batch -/

/-- The batch of some operations, if it stays under the ceiling and refreshes what it
reconciles. -/
def single (ceiling : Nat) (batch : Batch) : Except Error Batch :=
  if ceiling < batch.operands then .error (.batchTooSmall batch.operands ceiling)
  else if batch.isRefreshedFirst then .ok batch
  else .error (.invalidInput (.unrefreshed batch.kind))

/-! ## Reconciles -/

/-- A batch of reconciles that is still open: the venues it has to refresh, in order of first
use, and its steps. -/
structure Open where
  venues : List Venue
  steps : List ReconcileStep
  deriving DecidableEq

namespace Open

def empty : Open := ⟨[], []⟩

/-- The instructions that the batch takes so far. -/
def operands (b : Open) : Nat := b.venues.length + b.steps.length

/-- What one more step would take: itself, and a refresh if its venue is new. -/
def cost (b : Open) (step : ReconcileStep) : Nat := if step.venue ∈ b.venues then 1 else 2

/-- The batch with one more step. -/
def add (b : Open) (step : ReconcileStep) : Open where
  venues := if step.venue ∈ b.venues then b.venues else b.venues ++ [step.venue]
  steps := b.steps ++ [step]

/-- The finished batch: its refreshes, then its reconciles. -/
def close (b : Open) : Batch where
  kind := .reconcile
  operations := b.venues.map .refresh ++ b.steps.map .reconcile
  signers := []

end Open

/-- Packs steps into an open batch and those after it. -/
def packFrom (ceiling : Nat) (refreshable : List Venue) (b : Open) :
    List ReconcileStep → Except Error (List Batch)
  | [] => .ok (if b.steps.isEmpty then [] else [b.close])
  | step :: rest =>
    if step.venue ∉ refreshable then .error (.venueDisabled step.venue)
    else if b.operands + b.cost step ≤ ceiling then
      packFrom ceiling refreshable (b.add step) rest
    else (packFrom ceiling refreshable (Open.empty.add step) rest).map (b.close :: ·)

/-- The least ceiling for a reconcile: itself and its refresh. -/
def reconcileOperands : Nat := 2

/-- Packs steps into batches, in order and as few as the ceiling allows. A venue that cannot be
refreshed cannot be reconciled. -/
def pack (ceiling : Nat) (refreshable : List Venue) (steps : List ReconcileStep) :
    Except Error (List Batch) :=
  if steps ≠ [] ∧ ceiling < reconcileOperands then
    .error (.batchTooSmall reconcileOperands ceiling)
  else packFrom ceiling refreshable .empty steps

/-! ## Operations behind a refresh -/

/-- Refreshes of venues, then the vault's total. -/
def preamble (venues : List Venue) : List Operation := venues.map .refresh ++ [.consolidate]

/-- A list cut into pieces of one positive length, the last of what is left. -/
def pieces {α : Type} (size : Nat) : List α → List (List α)
  | [] => []
  | x :: xs => (x :: xs.take (size - 1)) :: pieces size (xs.drop (size - 1))
termination_by items => items.length
decreasing_by
  simp only [List.length_drop, List.length_cons]
  omega

/-- Operations behind a refresh of every venue and the vault's total. The total and the
operations share one batch; refreshes that do not fit beside them go ahead, in venue order. -/
def behindRefresh (ceiling : Nat) (kind : BatchKind) (venues : List Venue)
    (operations : List Operation) : Except Error (List Batch) :=
  let tail := 1 + Operation.total operations
  if ceiling < tail then .error (.batchTooSmall tail ceiling)
  else do
    let ahead := venues.length - min venues.length (ceiling - tail)
    let last ← single ceiling ⟨kind, preamble (venues.drop ahead) ++ operations, []⟩
    pure ((pieces ceiling (venues.take ahead)).map (fun vs => ⟨.refresh, vs.map .refresh, []⟩)
      ++ [last])

end Batch

end YieldVault
