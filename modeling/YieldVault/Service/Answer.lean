-- What the service answers: the shapes of its answers, and how each error of a
-- call is told to whoever asked.
import YieldVault.Record
import YieldVault.Service.Message

namespace YieldVault

/-- Why a request was not carried out. -/
inductive ServiceError
  /-- A part of the request makes no sense. -/
  | badRequest (reason : String)
  /-- A read went wrong. -/
  | call (e : Error)
  /-- A call of several batches went wrong. -/
  | execution (e : ExecutionError)

/-- The wording of a failed request. -/
def ServiceError.message : ServiceError → String
  | .badRequest reason => s!"Invalid request: {reason}"
  | .call e => e.message
  | .execution e => e.message

namespace Answer

/-- A number as text, since readers of JSON may not hold all of a word. -/
def amount (n : UInt64) : Json := .text (toString n)

/-! ## Errors -/

/-- The status and the name of a class of errors. -/
def classOf : ErrorKind → Nat × String
  | .state => (409, "STATE_ERROR")
  | .simulation => (422, "SIMULATION_REVERTED")
  | .batchConfirmation => (502, "BATCH_REJECTED")
  | .configuration => (500, "CONFIGURATION_ERROR")
  | .resourceLifecycle => (500, "RESOURCE_LIFECYCLE")
  | .transport => (503, "TRANSPORT_ERROR")
  | .math => (422, "MATH_ERROR")
  | .input => (400, "BAD_REQUEST")

def confirmation (c : Confirmation) : Json :=
  .ofFields [("batch", .nat c.batch), ("kind", .text c.kind.name),
    ("signature", .text c.signature.text)]

/-- An error with what is known about it; what is not known is left out. -/
def errorBody (message code : String) (programCode : Option UInt32)
    (confirmed : List Confirmation) (cleanup : Option Error) : Json :=
  .ofFields <|
    [("error", Json.text message), ("code", Json.text code)]
      ++ (programCode.map fun n => ("program_code", Json.nat n.toNat)).toList
      ++ (if confirmed.isEmpty then []
          else [("confirmed", Json.array (confirmed.map confirmation))])
      ++ (cleanup.map fun e => ("cleanup", Json.text e.message)).toList

/-- The answer to a request that failed. -/
def ofError : ServiceError → HttpResponse
  | .badRequest reason =>
    .ofJson 400
      (errorBody (ServiceError.badRequest reason).message "BAD_REQUEST" none [] none)
  | .call e =>
    let (status, code) := classOf e.kind
    .ofJson status (errorBody e.message code e.programCode [] none)
  | .execution e =>
    let (status, code) := classOf e.source.kind
    .ofJson status (errorBody e.source.message code e.source.programCode e.confirmed e.cleanup)

/-! ## Results -/

/-- What the record holds for a venue. -/
def venue (record : VaultRecord) (v : Venue) : Json :=
  let actual := record.account.actual.get v
  .ofFields [("venue", .text v.name), ("value", amount actual.value),
    ("target", amount (record.account.target.get v).value),
    ("stale", .bool actual.lastUpdate.stale)]

/-- A vault, as of the last reading. -/
def vault (record : VaultRecord) : Except ServiceError Json := do
  let rate ← record.rate.decimal.mapError .call
  pure <| .ofFields [("address", .text record.address.text),
    ("snapshot_version", .nat record.version),
    ("reserve_mint", .text record.denomination.text),
    ("share_mint", .text record.account.shareMint.text),
    ("total_value", amount record.totalValue),
    ("share_supply", amount record.shareSupply),
    ("unallocated_reserve", amount record.unallocated),
    ("exchange_rate", .text rate.text),
    ("halt_flags", .nat record.account.haltFlags.toNat),
    ("venues", .array (record.account.enabledVenues.map (venue record)))]

def venueValue (v : Venue) (value : UInt64) : Json :=
  .ofFields [("venue", .text v.name), ("value", amount value)]

def preview (asked shares : UInt64) : Json :=
  .ofFields [("amount", amount asked), ("shares", amount shares)]

/-- The batches of a call, and the vault's total after it. -/
def execution (confirmed : List Confirmation) (total : UInt64) : Json :=
  .ofFields [("confirmations", .array (confirmed.map confirmation)), ("total_value", amount total)]

/-- The version of the service. -/
def serviceVersion : String := "0.1.0"

/-- How the service is; without a record while a call is under way. -/
def health (record : Option VaultRecord) (now : Nat) : Json :=
  let status := match record with
    | none => "busy"
    | some record => if record.account.haltBits = 0 then "healthy" else "halted"
  .ofFields <|
    [("status", Json.text status), ("version", Json.text serviceVersion)]
      ++ (record.map fun r => ("vault", Json.text r.address.text)).toList
      ++ (record.map fun r => ("snapshot_version", Json.nat r.version)).toList
      ++ [("timestamp", Json.nat now)]

end Answer

end YieldVault
