-- Why a node's runtime refused a transaction: the names under which it reports
-- that, and the texts that go with them.
import YieldVault.Json.Tree
import YieldVault.Ledger

namespace YieldVault

/-- Why an instruction failed. -/
inductive InstructionFault
  /-- The code of a program's own. -/
  | custom (code : UInt32)
  | serialization (reason : String)
  /-- One of the named faults. -/
  | named (name : String)
  deriving DecidableEq, Repr

/-- Why a transaction failed. -/
inductive TransactionFault
  | instruction (index : UInt8) (fault : InstructionFault)
  | duplicateInstruction (index : UInt8)
  | rentOf (account : UInt8)
  | restricted (account : UInt8)
  /-- One of the named faults. -/
  | named (name : String)
  deriving DecidableEq, Repr

/-! ## Texts -/

namespace InstructionFault

/-- The faults with their texts, in the order in which a node knows them. Where something goes with
a fault, its text is only the start of a message. -/
def texts : List (String × String) :=
  [("GenericError", "generic instruction error"),
    ("InvalidArgument", "invalid program argument"),
    ("InvalidInstructionData", "invalid instruction data"),
    ("InvalidAccountData", "invalid account data for instruction"),
    ("AccountDataTooSmall", "account data too small for instruction"),
    ("InsufficientFunds", "insufficient funds for instruction"),
    ("IncorrectProgramId", "incorrect program id for instruction"),
    ("MissingRequiredSignature", "missing required signature for instruction"),
    ("AccountAlreadyInitialized", "instruction requires an uninitialized account"),
    ("UninitializedAccount", "instruction requires an initialized account"),
    ("UnbalancedInstruction",
      "sum of account balances before and after instruction do not match"),
    ("ModifiedProgramId", "instruction illegally modified the program id of an account"),
    ("ExternalAccountLamportSpend",
      "instruction spent from the balance of an account it does not own"),
    ("ExternalAccountDataModified", "instruction modified data of an account it does not own"),
    ("ReadonlyLamportChange", "instruction changed the balance of a read-only account"),
    ("ReadonlyDataModified", "instruction modified data of a read-only account"),
    ("DuplicateAccountIndex", "instruction contains duplicate accounts"),
    ("ExecutableModified", "instruction changed executable bit of an account"),
    ("RentEpochModified", "instruction modified rent epoch of an account"),
    ("NotEnoughAccountKeys", "insufficient account keys for instruction"),
    ("AccountDataSizeChanged",
      "program other than the account's owner changed the size of the account data"),
    ("AccountNotExecutable", "instruction expected an executable account"),
    ("AccountBorrowFailed",
      "instruction tries to borrow reference for an account which is already borrowed"),
    ("AccountBorrowOutstanding",
      "instruction left account with an outstanding borrowed reference"),
    ("DuplicateAccountOutOfSync",
      "instruction modifications of multiply-passed account differ"),
    ("Custom", "custom program error"),
    ("InvalidError", "program returned invalid error code"),
    ("ExecutableDataModified", "instruction changed executable accounts data"),
    ("ExecutableLamportChange", "instruction changed the balance of an executable account"),
    ("ExecutableAccountNotRentExempt", "executable accounts must be rent exempt"),
    ("UnsupportedProgramId", "Unsupported program id"),
    ("CallDepth", "Cross-program invocation call depth too deep"),
    ("MissingAccount", "An account required by the instruction is missing"),
    ("ReentrancyNotAllowed",
      "Cross-program invocation reentrancy not allowed for this instruction"),
    ("MaxSeedLengthExceeded", "Length of the seed is too long for address generation"),
    ("InvalidSeeds", "Provided seeds do not result in a valid address"),
    ("InvalidRealloc", "Failed to reallocate account data"),
    ("ComputationalBudgetExceeded", "Computational budget exceeded"),
    ("PrivilegeEscalation",
      "Cross-program invocation with unauthorized signer or writable account"),
    ("ProgramEnvironmentSetupFailure", "Failed to create program execution environment"),
    ("ProgramFailedToComplete", "Program failed to complete"),
    ("ProgramFailedToCompile", "Program failed to compile"),
    ("Immutable", "Account is immutable"),
    ("IncorrectAuthority", "Incorrect authority provided"),
    ("BorshIoError", "Failed to serialize or deserialize account data"),
    ("AccountNotRentExempt", "An account does not have enough lamports to be rent-exempt"),
    ("InvalidAccountOwner", "Invalid account owner"),
    ("ArithmeticOverflow", "Program arithmetic overflowed"),
    ("UnsupportedSysvar", "Unsupported sysvar"),
    ("IllegalOwner", "Provided owner is not allowed"),
    ("MaxAccountsDataAllocationsExceeded",
      "Accounts data allocations exceeded the maximum allowed per transaction"),
    ("MaxAccountsExceeded", "Max accounts exceeded"),
    ("MaxInstructionTraceLengthExceeded", "Max instruction trace length exceeded"),
    ("BuiltinProgramsMustConsumeComputeUnits", "Builtin programs must consume compute units")]

/-- The wording of a fault. -/
def message : InstructionFault → String
  | custom code => s!"custom program error: 0x{String.ofList (Text.hexText code.toNat)}"
  | serialization reason => s!"Failed to serialize or deserialize account data: {reason}"
  | named name => (texts.lookup name).getD name

end InstructionFault

namespace TransactionFault

/-- The faults with their texts, in the order in which a node knows them. Where something goes with
a fault, its message says more than its text. -/
def texts : List (String × String) :=
  [("AccountInUse", "Account in use"),
    ("AccountLoadedTwice", "Account loaded twice"),
    ("AccountNotFound", "Attempt to debit an account but found no record of a prior credit."),
    ("ProgramAccountNotFound", "Attempt to load a program that does not exist"),
    ("InsufficientFundsForFee", "Insufficient funds for fee"),
    ("InvalidAccountForFee", "This account may not be used to pay transaction fees"),
    ("AlreadyProcessed", "This transaction has already been processed"),
    ("BlockhashNotFound", "Blockhash not found"),
    ("InstructionError", "Error processing Instruction"),
    ("CallChainTooDeep", "Loader call chain is too deep"),
    ("MissingSignatureForFee", "Transaction requires a fee but has no signature present"),
    ("InvalidAccountIndex", "Transaction contains an invalid account reference"),
    ("SignatureFailure", "Transaction did not pass signature verification"),
    ("InvalidProgramForExecution", "This program may not be used for executing instructions"),
    ("SanitizeFailure", "Transaction failed to sanitize accounts offsets correctly"),
    ("ClusterMaintenance", "Transactions are currently disabled due to cluster maintenance"),
    ("AccountBorrowOutstanding",
      "Transaction processing left an account with an outstanding borrowed reference"),
    ("WouldExceedMaxBlockCostLimit", "Transaction would exceed max Block Cost Limit"),
    ("UnsupportedVersion", "Transaction version is unsupported"),
    ("InvalidWritableAccount", "Transaction loads a writable account that cannot be written"),
    ("WouldExceedMaxAccountCostLimit",
      "Transaction would exceed max account limit within the block"),
    ("WouldExceedAccountDataBlockLimit",
      "Transaction would exceed account data limit within the block"),
    ("TooManyAccountLocks", "Transaction locked too many accounts"),
    ("AddressLookupTableNotFound",
      "Transaction loads an address table account that doesn't exist"),
    ("InvalidAddressLookupTableOwner",
      "Transaction loads an address table account with an invalid owner"),
    ("InvalidAddressLookupTableData",
      "Transaction loads an address table account with invalid data"),
    ("InvalidAddressLookupTableIndex",
      "Transaction address table lookup uses an invalid index"),
    ("InvalidRentPayingAccount",
      "Transaction leaves an account with a lower balance than rent-exempt minimum"),
    ("WouldExceedMaxVoteCostLimit", "Transaction would exceed max Vote Cost Limit"),
    ("WouldExceedAccountDataTotalLimit", "Transaction would exceed total account data limit"),
    ("DuplicateInstruction", "Transaction contains a duplicate instruction"),
    ("InsufficientFundsForRent",
      "Transaction results in an account with insufficient funds for rent"),
    ("MaxLoadedAccountsDataSizeExceeded",
      "Transaction exceeded max loaded accounts data size cap"),
    ("InvalidLoadedAccountsDataSizeLimit",
      "LoadedAccountsDataSizeLimit set for transaction must be greater than 0."),
    ("ResanitizationNeeded", "ResanitizationNeeded"),
    ("ProgramExecutionTemporarilyRestricted", "Execution of a program is restricted"),
    ("UnbalancedTransaction",
      "Sum of account balances before and after transaction do not match"),
    ("ProgramCacheHitMaxLimit", "Program cache hit max limit"),
    ("CommitCancelled", "CommitCancelled")]

/-- The wording of a fault. -/
def message : TransactionFault → String
  | instruction index fault => s!"Error processing Instruction {index}: {fault.message}"
  | duplicateInstruction index =>
    s!"Transaction contains a duplicate instruction ({index}) that is not allowed"
  | rentOf account =>
    s!"Transaction results in an account ({account}) with insufficient funds for rent"
  | restricted account =>
    s!"Execution of the program referenced by account at index {account} is temporarily restricted."
  | named name => (texts.lookup name).getD name

/-- The code that the failing program gave, if it gave one. -/
def customCode? : TransactionFault → Option UInt32
  | instruction _ (.custom code) => some code
  | _ => none

/-- The fault as a refusal. -/
def rejection (fault : TransactionFault) : Rejection := ⟨fault.customCode?, fault.message⟩

end TransactionFault

/-! ## Reading -/

open Json.Tree

namespace InstructionFault

/-- What goes with the fault of a name. -/
def payloadOf : String → Payload InstructionFault
  | "Custom" => .one fun json => .custom <$> readWord32 json
  | "BorshIoError" => .one fun json => .serialization <$> readText json
  | name => .nothing (.named name)

/-- All faults. -/
def cases : List (Case InstructionFault) := texts.map fun (name, _) => ⟨name, payloadOf name⟩

def read : Json → Reading InstructionFault := readCase cases

end InstructionFault

namespace TransactionFault

/-- The case that an instruction failed. -/
def instructionCase : String := "tuple variant TransactionError::InstructionError"

/-- The index of an instruction, and why it failed. -/
def readInstruction (items : List Json) : Reading TransactionFault :=
  (readTwo readByte InstructionFault.read s!"{instructionCase} with 2 elements" items).map
    fun (index, fault) => .instruction index fault

/-- The index of an account. -/
def readAccount (members : List (Option String × Json)) : Reading UInt8 :=
  readMembers 0 [.required "account_index" readByte fun _ index => index] members

/-- What goes with the fault of a name. -/
def payloadOf : String → Payload TransactionFault
  | "InstructionError" => .several instructionCase readInstruction
  | "DuplicateInstruction" => .one fun json => .duplicateInstruction <$> readByte json
  | "InsufficientFundsForRent" => .fields fun members => .rentOf <$> readAccount members
  | "ProgramExecutionTemporarilyRestricted" =>
    .fields fun members => .restricted <$> readAccount members
  | name => .nothing (.named name)

/-- All faults. -/
def cases : List (Case TransactionFault) := texts.map fun (name, _) => ⟨name, payloadOf name⟩

def read : Json → Reading TransactionFault := readCase cases

end TransactionFault

end YieldVault
