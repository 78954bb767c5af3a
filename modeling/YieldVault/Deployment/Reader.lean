-- The text of a deployment: an object with the list of its adapters. An adapter
-- is tagged with its venue, and its other members are the accounts of that venue.
import YieldVault.Deployment
import YieldVault.Json.Decode

namespace YieldVault

open Json (Fault Member)

namespace Adapter

/-! ## Accounts of a venue -/

/-- A member that holds an account. -/
def account (name : String) : Member (Option Key) :=
  .required name fun json => some <$> json.readKey

/-- A member that may hold an account. -/
def maybeAccount (name : String) : Member (Option Key) :=
  .optional name (Json.readOption Json.readKey) none

/-- What the accounts of a venue are called, as a whole and one by one. -/
def fieldsOf : Venue → String × List (Member (Option Key))
  | .solend => ("SolendAccounts", [account "program", account "market",
      account "market_authority", account "lp_mint", account "liquidity_supply",
      account "pyth", account "switchboard"])
  | .port => ("PortAccounts", [account "program", account "market",
      account "market_authority", account "lp_mint", account "liquidity_supply",
      maybeAccount "oracle"])
  | .jet => ("JetAccounts", [account "program", account "market",
      account "market_authority", account "lp_mint", account "liquidity_supply",
      account "fee_note_vault", account "pyth"])

/-- The adapter of a venue with its accounts, in the order of its fields. -/
def ofKeys? : Venue → List (Option Key) → Option Adapter
  | .solend, [some program, some market, some authority, some mint, some supply, some pyth,
      some switchboard] =>
    some (.solend ⟨program, market, authority, mint, supply, pyth, switchboard⟩)
  | .port, [some program, some market, some authority, some mint, some supply, oracle] =>
    some (.port ⟨program, market, authority, mint, supply, oracle⟩)
  | .jet, [some program, some market, some authority, some mint, some supply, some feeNotes,
      some pyth] =>
    some (.jet ⟨program, market, authority, mint, supply, feeNotes, pyth⟩)
  | _, _ => none

/-- The accounts of an adapter, in the order of its fields. -/
def keys : Adapter → List (Option Key)
  | solend w =>
    [some w.program, some w.market, some w.marketAuthority, some w.claimMint,
      some w.liquiditySupply, some w.pyth, some w.switchboard]
  | port w =>
    [some w.program, some w.market, some w.marketAuthority, some w.claimMint,
      some w.liquiditySupply, w.oracle]
  | jet w =>
    [some w.program, some w.market, some w.marketAuthority, some w.claimMint,
      some w.liquiditySupply, some w.feeNoteVault, some w.pyth]

@[simp] theorem ofKeys?_keys (a : Adapter) : ofKeys? a.venue a.keys = some a := by
  cases a <;> rfl

/-- What the accounts of an adapter are called, each with its account. -/
def named (a : Adapter) : List (String × Option Key) :=
  ((fieldsOf a.venue).2.map (·.name)).zip a.keys

def ofKeys (venue : Venue) (keys : List (Option Key)) : Except Fault Adapter :=
  match ofKeys? venue keys with
  | some adapter => .ok adapter
  | none => .error (.malformed "expected value")

/-! ## Reading -/

/-- The member that holds the venue of an adapter. -/
def tagName : String := "venue"

/-- How deep the accounts of an adapter may nest: the deployment, its list and the adapter itself
are around them. -/
def accountDepth : Nat := Json.maxDepth - 3

def readTag : Json → Except Fault Venue
  | .text name => Json.venueOfName name
  | json => json.unexpected "variant identifier"

/-- Accounts are looked at once the venue is known; until then they have only to be there. -/
def ensureReadable (json : Json) : Except Fault Unit :=
  if json.isReadable accountDepth then .ok () else .error (.malformed "expected value")

/-- Parts the members of an adapter into its venue and its accounts. -/
def partMembers : Option Venue → List (Option String × Json) →
    Except Fault (Option Venue × List (Option String × Json))
  | tag, [] => .ok (tag, [])
  | _, (none, _) :: _ => .error (.malformed "expected value")
  | tag, (some name, value) :: rest =>
    if name = tagName then
      match tag with
      | some _ => .error (.mismatch s!"duplicate field `{tagName}`")
      | none => do
        let venue ← readTag value
        partMembers (some venue) rest
    else do
      ensureReadable value
      let (tag, others) ← partMembers tag rest
      pure (tag, (some name, value) :: others)

def missingTag {α : Type} : Except Fault α := .error (.mismatch s!"missing field `{tagName}`")

/-- Reads an adapter, from an object or from an array that starts with the venue. -/
def read : Json → Except Fault Adapter
  | .object members => do
    match ← partMembers none members with
    | (none, _) => missingTag
    | (some venue, members) =>
      let keys ← Json.readMembers (fieldsOf venue).2 members
      ofKeys venue keys
  | .array [] => missingTag
  | .array (tag :: items) => do
    let venue ← readTag tag
    items.forM ensureReadable
    let (name, fields) := fieldsOf venue
    let (keys, rest) ←
      Json.readPositions s!"struct {name} with {Json.elements fields.length}" 0 fields items
    if rest.isEmpty then ofKeys venue keys
    else Json.tooShort items.length s!"{Json.elements fields.length} in sequence"
  | json => json.unexpected "internally tagged enum VenueAdapter"

end Adapter

namespace Deployment

/-- The adapters of a deployment. -/
def readAdapters (json : Json) : Except Fault (List Adapter) := do
  let lists ← json.readRecord "DeploymentConfig"
    [.required "venues" (Json.readItems Adapter.read)]
  pure lists.flatten

/-- The deployment of a text. -/
def ofText (text : String) : Except Error Deployment :=
  match Json.readDocument text readAdapters with
  | .error message => .error (.config (.deployment message))
  | .ok adapters => ofList adapters

/-- The deployment of a file, if the file is there. -/
def ofFile (path : String) (content : Option String) : Except Error Deployment :=
  match content with
  | some text => ofText text
  | none => .error (.config (.missingFile path))

end Deployment

end YieldVault
