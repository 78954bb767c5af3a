-- Rebalancing: the vault's own program is run without effect to learn what it
-- would aim at; what differs from the actual values is then moved, venue by
-- venue, after the target is committed.
import YieldVault.Batch.Packing
import YieldVault.Client
import YieldVault.Submission

namespace YieldVault

namespace Client

/-! ## What a rebalance would do -/

/-- The operations that refresh a vault and commit its target. -/
def commitOperations (venues : List Venue) (weights : Option Weights) : List Operation :=
  Batch.preamble venues ++ [.rebalance weights]

/-- Runs the commit without effect, and reads off what the vault would hold. -/
def project (client : Client) (weights : Option Weights) : Call Projection := do
  let vault := client.record.address
  let instructions ← client.encoder.operations (commitOperations client.activeVenues weights)
  let simulation ← Call.simulate instructions [vault]
  let simulation ← simulation.accepted
  match simulation.accounts with
  | some data :: _ =>
    let account ← VaultAccount.decode vault data
    pure ⟨account.targetSet, account.actualSet, account.value.value⟩
  | _ => throw (.accountDecode vault .unsimulated)

/-! ## Plans -/

/-- The batches that commit a target and carry out its movements; none without movements. -/
def rebalanceBatches (client : Client) (weights : Option Weights) (movements : List Movement) :
    Except Error (List Batch) :=
  if movements.isEmpty then .ok []
  else do
    let venues := client.activeVenues
    let commit ← Batch.behindRefresh client.ceiling .commit venues [.rebalance weights]
    let reconciles ← Batch.pack client.ceiling venues (movements.map .toTarget)
    pure (commit ++ reconciles)

/-- The batches of a rebalance. -/
def planRebalance (client : Client) (weights : Option Weights) : Call (List Batch) := do
  client.record.ensureRunning [.refreshes]
  client.record.ensureRunning [.reconciles]
  let projection ← client.project weights
  let movements ← projection.target.movements projection.actual
  client.rebalanceBatches weights (Movement.inOrder movements)

/-! ## Calls -/

/-- Ends a call: the vault is read anew, whatever came of the call. A failed reading spoils a
call that went well, and is passed over after one that did not. -/
def finish (client : Client) (outcome : ExecutionResult) : Dialogue (ExecutionResult × Client) := do
  let (reloaded, client) ← client.reload
  match outcome, reloaded with
  | .ok confirmed, .error e => pure (.error (.after confirmed e), client)
  | _, _ => pure (outcome, client)

/-- Plans a rebalance and sends it. -/
def executeRebalance (client : Client) (weights : Option Weights) : Dialogue ExecutionResult := do
  match ← (client.planRebalance weights).run with
  | .error e => pure (.error (.early e))
  | .ok batches =>
    match ← Batch.sendAll client.encoder [] batches .start with
    | (.ok (), p) => pure (.ok p.confirmed)
    | (.error e, p) => pure (.error (.after p.confirmed e))

/-- Rebalances the vault, by given weights or by its own. -/
def rebalance (client : Client) (weights : Option Weights) :
    Dialogue (ExecutionResult × Client) := do
  client.finish (← client.executeRebalance weights)

/-- The part of a pass that follows its reload. -/
def passAfter (client : Client) (reloaded : Except Error Unit) : Dialogue (Nat × Client) := do
  match reloaded with
  | .error _ => pure (0, client)
  | .ok () =>
    match ← client.rebalance none with
    | (.ok confirmed, client) => pure (confirmed.length, client)
    | (.error e, client) => pure (e.confirmed.length, client)

/-- One pass of a schedule: a reload, then a rebalance by the vault's own weights. It comes to
the number of batches that were confirmed. -/
def pass (client : Client) : Dialogue (Nat × Client) := do
  let (reloaded, client) ← client.reload
  client.passAfter reloaded

end Client

end YieldVault
