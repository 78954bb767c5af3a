-- Scopes: a vault of the wrapped native asset is paid into and out of through a
-- token account that lives for a single call. The account is created ahead of
-- the call's main batches, and closed after them whatever came of them.
import YieldVault.Batch.Packing
import YieldVault.Submission

namespace YieldVault

/-- A wrapped account of one call. -/
structure WrappedAccount where
  pair : Keypair
  /-- What the account is funded with: what keeps it, and what is wrapped. -/
  lamports : UInt64
  deriving DecidableEq

namespace WrappedAccount

def address (w : WrappedAccount) : Key := w.pair.address

def acquire (w : WrappedAccount) : Operation := .wrap w.address w.lamports

def release (w : WrappedAccount) : Operation := .unwrap w.address

/-- What a failure at one end of the account's life is. -/
def failure (w : WrappedAccount) (stage : WrapStage) (e : Error) : Error :=
  .wrappedAsset w.address stage e.message

/-- The account that wraps an amount, if what it takes can be told. -/
def fund? (pair : Keypair) (rent amount : UInt64) : Except Error WrappedAccount :=
  (amount? (rent.toNat + amount.toNat)).map (⟨pair, ·⟩)

end WrappedAccount

/-- The batches of a deposit or a withdrawal, all laid out before any is sent. -/
structure ScopedPlan where
  /-- Reconciles that free the reserve. -/
  before : List Batch
  /-- Accounts that have to be there. -/
  setup : Option Batch
  /-- The deposit or withdrawal behind its refreshes. -/
  main : List Batch
  /-- The wrapped account of the call, and the batch that closes it. -/
  scope : Option (WrappedAccount × Batch)
  deriving DecidableEq

namespace ScopedPlan

/-- Lays out a call. The wrapped account is created last in the setup. -/
def layOut (ceiling : Nat) (before : List Batch) (setup : List Operation) (main : List Batch)
    (wrapped : Option WrappedAccount) : Except Error ScopedPlan := do
  let setup := setup ++ (wrapped.map (·.acquire)).toList
  let setup ← match setup with
    | [] => pure none
    | _ => some <$> Batch.single ceiling ⟨.setup, setup, (wrapped.map (·.address)).toList⟩
  let scope ← match wrapped with
    | none => pure none
    | some w => (some ⟨w, ·⟩) <$> Batch.single ceiling ⟨.cleanup, [w.release], []⟩
  pure ⟨before, setup, main, scope⟩

/-- The keypairs at hand. -/
def keyring (plan : ScopedPlan) : List Keypair := (plan.scope.map (·.1.pair)).toList

/-- What a failed setup is: where it had an account to wrap, a failure of that account. -/
def setupFailure (plan : ScopedPlan) (e : Error) : Error :=
  match plan.scope with
  | some (w, _) => w.failure .create e
  | none => e

/-- Sends the setup, if there is one. -/
def sendSetup (plan : ScopedPlan) (encoder : Encoder) (p : Progress) :
    Dialogue (Except Error Unit × Progress) :=
  match plan.setup with
  | none => pure (.ok (), p)
  | some setup => do
    match ← setup.send encoder plan.keyring p with
    | (.ok (), p) => pure (.ok (), p)
    | (.error e, p) => pure (.error (plan.setupFailure e), p)

/-- Closes the wrapped account, if there is one. -/
def sendCleanup (plan : ScopedPlan) (encoder : Encoder) (p : Progress) :
    Dialogue (Option Error × Progress) :=
  match plan.scope with
  | none => pure (none, p)
  | some (w, cleanup) => do
    match ← cleanup.send encoder plan.keyring p with
    | (.ok (), p) => pure (none, p)
    | (.error e, p) => pure (some (w.failure .close e), p)

/-- What a call comes to. A failed closing never takes the place of the main failure. -/
def conclude (confirmed : List Confirmation) :
    (main : Except Error Unit) → (cleanup : Option Error) → ExecutionResult
  | .ok (), none => .ok confirmed
  | .ok (), some e => .error (.after confirmed e)
  | .error e, cleanup => .error ⟨confirmed, e, cleanup⟩

/-- Sends the batches of a plan. Once the setup is confirmed, the wrapped account is closed on
every path. -/
def send (plan : ScopedPlan) (encoder : Encoder) : Dialogue ExecutionResult := do
  match ← Batch.sendAll encoder plan.keyring plan.before .start with
  | (.error e, p) => pure (.error (.after p.confirmed e))
  | (.ok (), p) =>
    match ← plan.sendSetup encoder p with
    | (.error e, p) => pure (.error (.after p.confirmed e))
    | (.ok (), p) =>
      let (outcome, p) ← Batch.sendAll encoder plan.keyring plan.main p
      let (cleanup, p) ← plan.sendCleanup encoder p
      pure (conclude p.confirmed outcome cleanup)

end ScopedPlan

end YieldVault
