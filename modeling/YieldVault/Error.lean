-- Everything that can stop a call on a vault, as causes. `Error.message` is the
-- only place where they are put into words, and `Error.kind` sorts them into the
-- classes that callers branch on.
import YieldVault.Batch.Confirmation
import YieldVault.Bytes.Base64
import YieldVault.Layout
import YieldVault.Token

namespace YieldVault

/-! ## Causes -/

/-- Why the data of an account was not usable. -/
inductive DecodeFault
  /-- The first eight bytes are not those of a vault account. -/
  | discriminator
  | layout (fault : LayoutFault)
  | token (fault : Token.Fault)
  /-- There is no account. -/
  | absent
  /-- A simulation came back without the account. -/
  | unsimulated
  | base64 (fault : Base64.Fault)
  /-- The data came in another encoding. -/
  | notBase64
  /-- A fault known by its description alone. -/
  | described (text : String)
  deriving DecidableEq, Repr

/-- What a halted vault refuses. -/
inductive Activity
  | transfers
  | reconciles
  | refreshes
  deriving DecidableEq, Repr

/-- The two ends in the life of a wrapped account. -/
inductive WrapStage
  | create
  | close
  deriving DecidableEq, Repr

/-- Why a caller's input was refused. -/
inductive InputFault
  | depositZero
  | withdrawZero
  | belowOneShare (amount : UInt64)
  | aboveVaultValue (amount total : UInt64)
  | overweight (venue : Venue) (bps : UInt16)
  /-- A batch lists a signer whose keypair is not at hand. -/
  | missingKeypair (signer : Key)
  /-- A batch reconciles a venue without refreshing it first. -/
  | unrefreshed (kind : BatchKind)
  /-- A fault known by its description alone. -/
  | described (text : String)
  deriving DecidableEq, Repr

/-- Why a configuration was refused. -/
inductive ConfigFault
  | commitment (level : String)
  | unset (setting : String)
  | notKey (setting : String) (fault : Key.TextFault)
  | operandCount (text : String)
  | noOperands
  /-- The deployment text is not a deployment. -/
  | deployment (reason : String)
  | configuredTwice (venue : Venue)
  | notConfigured (venue : Venue)
  | missingFile (path : String)
  /-- A file that is there does not hold what it should; the reasons are not told apart. -/
  | unreadableFile (path : String)
  /-- A fault known by its description alone. -/
  | described (text : String)
  deriving DecidableEq, Repr

/-- What stopped a call. -/
inductive Error
  | vaultNotFound (vault : Key)
  | accountDecode (account : Key) (fault : DecodeFault)
  | staleRecord (venue : Venue)
  | venueDisabled (venue : Venue)
  | vaultHalted (activity : Activity)
  /-- The ledger refused a simulated transaction. -/
  | simulationReverted (code : Option UInt32) (reason : String) (logs : List String)
  /-- The ledger refused a submitted batch. -/
  | batchRejected (batch : Nat) (code : Option UInt32) (reason : String)
  | batchTooSmall (required max : Nat)
  | denominationMismatch (expected found : Key)
  | wrappedAsset (account : Key) (stage : WrapStage) (reason : String)
  | invalidInput (fault : InputFault)
  | config (fault : ConfigFault)
  | mathOverflow
  | divisionByZero
  | transport (reason : String)
  deriving DecidableEq, Repr

/-! ## Wording -/

def DecodeFault.message : DecodeFault → String
  | .discriminator => "unexpected account discriminator"
  | .layout fault => fault.message
  | .token fault => fault.message
  | .absent => "account does not exist"
  | .unsimulated => "simulation returned no vault data"
  | .base64 fault => fault.message
  | .notBase64 => "simulation returned non-base64 account data"
  | .described text => text

def Activity.name : Activity → String
  | .transfers => "deposits and withdrawals"
  | .reconciles => "reconciles"
  | .refreshes => "refreshes"

def WrapStage.name : WrapStage → String
  | .create => "create"
  | .close => "close"

def InputFault.message : InputFault → String
  | .depositZero => "deposit amount is zero"
  | .withdrawZero => "withdraw amount is zero"
  | .belowOneShare amount => s!"withdrawal of {amount} is worth less than one share"
  | .aboveVaultValue amount total => s!"withdrawal of {amount} exceeds vault value {total}"
  | .overweight venue bps => s!"weight for {venue} is {bps} bps, above 10000"
  | .missingKeypair signer => s!"no keypair for signer {signer}"
  | .unrefreshed kind => s!"{kind} batch reconciles a venue it does not refresh"
  | .described text => text

def ConfigFault.message : ConfigFault → String
  | .commitment level => s!"COMMITMENT: {level}"
  | .unset name => s!"{name} is not set"
  | .notKey name fault => s!"{name}: {fault.message}"
  | .operandCount text => s!"MAX_OPERANDS_PER_BATCH: {text}"
  | .noOperands => "MAX_OPERANDS_PER_BATCH must be positive"
  | .deployment reason => s!"deployment file: {reason}"
  | .configuredTwice venue => s!"venue {venue} configured twice"
  | .notConfigured venue => s!"venue {venue} is enabled on the vault but not configured"
  | .missingFile path => s!"{path}: No such file or directory (os error 2)"
  | .unreadableFile path => s!"{path}: unreadable"
  | .described text => text

def Error.message : Error → String
  | .vaultNotFound vault => s!"Vault account {vault} not found"
  | .accountDecode account fault => s!"Account {account} could not be decoded: {fault.message}"
  | .staleRecord venue => s!"Cached allocation for {venue} is stale, reload and refresh first"
  | .venueDisabled venue => s!"Venue {venue} is not enabled for this vault"
  | .vaultHalted activity => s!"Vault is halted for {activity.name}"
  | .simulationReverted _ reason _ => s!"Simulation reverted: {reason}"
  | .batchRejected batch _ reason => s!"Batch {batch} was not confirmed: {reason}"
  | .batchTooSmall required max =>
    s!"Batch ceiling of {max} operands cannot hold {required} operands"
  | .denominationMismatch expected found =>
    s!"Denomination mismatch: expected {expected}, found {found}"
  | .wrappedAsset account stage reason =>
    s!"Wrapped asset account {account} failed to {stage.name}: {reason}"
  | .invalidInput fault => s!"Invalid input: {fault.message}"
  | .config fault => s!"Invalid configuration: {fault.message}"
  | .mathOverflow => "Arithmetic overflow"
  | .divisionByZero => "Division by zero"
  | .transport reason => s!"Ledger transport error: {reason}"

/-! ## Classes -/

/-- The classes of errors that callers branch on. -/
inductive ErrorKind
  /-- Resolved by reloading the vault. -/
  | state
  | simulation
  /-- A batch failed; the confirmations before it stand. -/
  | batchConfirmation
  /-- A matter of deployment, never of another try. -/
  | configuration
  | resourceLifecycle
  | transport
  | math
  | input
  deriving DecidableEq, Repr

def Error.kind : Error → ErrorKind
  | .vaultNotFound .. => .state
  | .accountDecode .. => .state
  | .staleRecord .. => .state
  | .venueDisabled .. => .state
  | .vaultHalted .. => .state
  | .simulationReverted .. => .simulation
  | .batchRejected .. => .batchConfirmation
  | .batchTooSmall .. => .configuration
  | .denominationMismatch .. => .configuration
  | .config .. => .configuration
  | .wrappedAsset .. => .resourceLifecycle
  | .transport .. => .transport
  | .mathOverflow => .math
  | .divisionByZero => .math
  | .invalidInput .. => .input

/-- The code that the vault's program gave for refusing, if the error carries one. -/
def Error.programCode : Error → Option UInt32
  | .simulationReverted code .. => code
  | .batchRejected _ code _ => code
  | _ => none

/-! ## Calls of several batches -/

/-- How a call of several batches failed. Batches that confirmed before are kept. -/
structure ExecutionError where
  confirmed : List Confirmation
  source : Error
  /-- What kept the wrapped account from being closed, beside the failure itself. -/
  cleanup : Option Error
  deriving DecidableEq

namespace ExecutionError

/-- A failure with nothing left to close. -/
def after (confirmed : List Confirmation) (source : Error) : ExecutionError :=
  ⟨confirmed, source, none⟩

/-- A failure before anything confirmed. -/
def early (source : Error) : ExecutionError := after [] source

def message (e : ExecutionError) : String :=
  s!"{e.source.message} ({e.confirmed.length} batch(es) confirmed before failure)"

end ExecutionError

/-- What a call of several batches comes to: its confirmations in order, or its failure. -/
abbrev ExecutionResult := Except ExecutionError (List Confirmation)

end YieldVault
