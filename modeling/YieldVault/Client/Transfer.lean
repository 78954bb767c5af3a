-- Deposits and withdrawals. A withdrawal that the reserve at hand does not cover
-- first takes out of the venues what they would hold too much of once the
-- amount had left the vault.
import YieldVault.Client.Rebalance
import YieldVault.Client.Scope

namespace YieldVault

namespace Client

/-! ## Plans -/

/-- Whether an account is on the ledger. -/
def isPresent (address : Key) : Call Bool := do
  return (← Call.account address).isSome

/-- The wrapped account that a call on this vault goes through, if its reserve is the native
asset. -/
def wrapped? (client : Client) (pair : Keypair) (amount : UInt64) :
    Call (Option WrappedAccount) := do
  if client.record.denomination = Key.nativeMint then
    let rent ← Call.rent Token.accountWidth
    return some (← WrappedAccount.fund? pair rent amount)
  else return none

/-- The payer's account for the vault's shares. -/
def shareAccount (client : Client) : Key :=
  associatedAccount client.payer client.record.account.shareMint

/-- The payer's account for the vault's reserve. -/
def reserveAccount (client : Client) : Key :=
  associatedAccount client.payer client.record.denomination

/-- Refuses a transfer that a halted vault would refuse. -/
def ensureTransfers (client : Client) : Except Error Unit := do
  client.record.ensureRunning [.transfers]
  client.record.ensureRunning [.refreshes]

/-- Lays out a deposit. The amount comes from the wrapped account if there is one, else from the
given account, else from the payer's own. The shares to be expected are worked out last, for the
journal of the calls, and a deposit without such a number fails there, before anything is sent. This
is a client that keeps the journal; one that keeps none would not work the shares out, and would
send the plan. -/
def planDeposit (client : Client) (pair : Keypair) (amount : UInt64) (source : Option Key) :
    Call ScopedPlan := do
  if amount = 0 then throw (.invalidInput .depositZero)
  client.ensureTransfers
  let setup := if ← isPresent client.shareAccount then []
    else [Operation.createAssociated client.record.account.shareMint]
  let wrapped ← client.wrapped? pair amount
  let source := match wrapped with
    | some w => w.address
    | none => source.getD client.reserveAccount
  let main ← Batch.behindRefresh client.ceiling .deposit client.activeVenues
    [.deposit amount source client.shareAccount]
  let plan ← ScopedPlan.layOut client.ceiling [] setup main wrapped
  -- an entry of the journal, which names the shares
  let _ ← client.previewDeposit amount
  return plan

/-- The withdrawals among movements, each as a step of exactly its amount. -/
def withdrawalSteps (movements : List Movement) : Except Error (List ReconcileStep) :=
  (movements.filter fun m => m.direction = .withdraw).mapM ReconcileStep.explicit

/-- The steps that take out of the venues what they would hold too much of once an amount had
left the vault, the largest first. -/
def freeingSteps (projection : Projection) (amount : UInt64) : Except Error (List ReconcileStep) := do
  let rest ← projection.afterWithdrawal amount
  let movements ← rest.target.movements rest.actual
  withdrawalSteps (Movement.inOrder movements)

/-- The reconciles that free the reserve for a withdrawal. -/
def planFreeing (client : Client) (amount : UInt64) : Call (List Batch) := do
  if client.record.unallocated < amount then
    client.record.ensureRunning [.reconciles]
    let projection ← client.project none
    let steps ← freeingSteps projection amount
    Batch.pack client.ceiling client.activeVenues steps
  else return []

/-- The shares that a withdrawal burns; there has to be one. -/
def sharesToBurn (client : Client) (amount : UInt64) : Except Error UInt64 := do
  let shares ← client.previewWithdraw amount
  if shares = 0 then throw (.invalidInput (.belowOneShare amount))
  return shares

/-- Where a withdrawal is paid to, and what has to be created for that. -/
def destination (client : Client) (wrapped : Option WrappedAccount) :
    Call (Key × List Operation) := do
  match wrapped with
  | some w => return (w.address, [])
  | none =>
    if ← isPresent client.reserveAccount then return (client.reserveAccount, [])
    else return (client.reserveAccount, [.createAssociated client.record.denomination])

/-- Lays out a withdrawal. -/
def planWithdraw (client : Client) (pair : Keypair) (amount : UInt64) : Call ScopedPlan := do
  if amount = 0 then throw (.invalidInput .withdrawZero)
  client.ensureTransfers
  let shares ← client.sharesToBurn amount
  let before ← client.planFreeing amount
  let wrapped ← client.wrapped? pair 0
  let (destination, setup) ← client.destination wrapped
  let main ← Batch.behindRefresh client.ceiling .withdraw client.activeVenues
    [.withdraw shares client.shareAccount destination]
  ScopedPlan.layOut client.ceiling before setup main wrapped

/-! ## Calls -/

/-- Sends a plan, if it could be laid out. -/
def execute (client : Client) (plan : Call ScopedPlan) : Dialogue ExecutionResult := do
  match ← plan.run with
  | .error e => pure (.error (.early e))
  | .ok plan => plan.send client.encoder

/-- Pays an amount of the reserve in. The pair is for the wrapped account, should there be one;
it must be of this call alone. -/
def deposit (client : Client) (pair : Keypair) (amount : UInt64) (source : Option Key) :
    Dialogue (ExecutionResult × Client) := do
  client.finish (← client.execute (client.planDeposit pair amount source))

/-- Takes an amount of the reserve out. -/
def withdraw (client : Client) (pair : Keypair) (amount : UInt64) :
    Dialogue (ExecutionResult × Client) := do
  client.finish (← client.execute (client.planWithdraw pair amount))

end Client

end YieldVault
