-- The service itself: it turns requests into calls of a client, and what comes of
-- them into responses. The checks around a call stand in this order: the declared
-- length of the body, browsers' questions, the path, the key, the method, and
-- then the parts of the request from the outside in.
import YieldVault.Client.Transfer
import YieldVault.Service.Answer
import YieldVault.Service.Config
import YieldVault.Service.Form
import YieldVault.Service.Route

namespace YieldVault

namespace Service

/-! ## Parts of a request -/

def amountOf (text : String) : Except ServiceError UInt64 :=
  match Text.unsigned? UInt64.size text with
  | some n => .ok (UInt64.ofNat n)
  | none => .error (.badRequest s!"amount {Text.quoted text} is not a u64")

def venueOf (text : String) : Except ServiceError Venue :=
  match Venue.ofName? text with
  | some venue => .ok venue
  | none => .error (.badRequest s!"unknown venue {Text.quoted text}")

def keyOf (text : String) : Except ServiceError Key :=
  (Key.ofText text).mapError fun fault => .badRequest s!"{text}: {fault.message}"

/-! ## Calls -/

/-- The answer to a request whose result is at hand. -/
def answer (result : Except ServiceError Json) : HttpResponse :=
  match result with
  | .ok json => .ofJson 200 json
  | .error e => Answer.ofError e

/-- The answer to a call of several batches. -/
def executed : ExecutionResult × Client → HttpResponse × Client
  | (.ok confirmed, client) =>
    (.ofJson 200 (Answer.execution confirmed client.totalValue), client)
  | (.error e, client) => (Answer.ofError (.execution e), client)

/-- Reads a part of the path, and answers with what is made of it. -/
def withPart (part : String) (read : String → Except ServiceError Json) : HttpResponse :=
  match Text.percentDecoded? part with
  | none => .bare 400
  | some text => answer (read text)

/-- What a read of the client's record answers. -/
def read (client : Client) : Route → HttpResponse
  | .vault => answer (Answer.vault client.record)
  | .venueValue part => withPart part fun text => do
    let venue ← venueOf text
    let value ← (client.venueValue venue).mapError .call
    pure (Answer.venueValue venue value)
  | .previewDeposit part => withPart part fun text => do
    let amount ← amountOf text
    let shares ← (client.previewDeposit amount).mapError .call
    pure (Answer.preview amount shares)
  | .previewWithdraw part => withPart part fun text => do
    let amount ← amountOf text
    let shares ← (client.previewWithdraw amount).mapError .call
    pure (Answer.preview amount shares)
  | _ => .bare 404

def reload (client : Client) : Dialogue (HttpResponse × Client) := do
  match ← client.reload with
  | (.ok (), client) => pure (answer (Answer.vault client.record), client)
  | (.error e, client) => pure (Answer.ofError (.call e), client)

def rebalance (client : Client) (form : RebalanceForm) : Dialogue (HttpResponse × Client) := do
  return executed (← client.rebalance form.weights)

def deposit (client : Client) (pair : Keypair) (form : DepositForm) :
    Dialogue (HttpResponse × Client) :=
  let parts : Except ServiceError (UInt64 × Option Key) := do
    let amount ← amountOf form.amount
    let source ← form.source.mapM keyOf
    pure (amount, source)
  match parts with
  | .error e => pure (Answer.ofError e, client)
  | .ok (amount, source) => executed <$> client.deposit pair amount source

def withdraw (client : Client) (pair : Keypair) (form : WithdrawForm) :
    Dialogue (HttpResponse × Client) :=
  match amountOf form.amount with
  | .error e => pure (Answer.ofError e, client)
  | .ok amount => executed <$> client.withdraw pair amount

/-- Goes on with the form of a request, if there is one. -/
def withForm {α : Type} (client : Client) (form : Except Nat α)
    (call : α → Dialogue (HttpResponse × Client)) : Dialogue (HttpResponse × Client) :=
  match form with
  | .error status => pure (.bare status, client)
  | .ok form => call form

/-- Carries out a request on a route. The pair is for a wrapped account. -/
def carryOut (client : Client) (pair : Keypair) (route : Route) (request : HttpRequest) :
    Dialogue (HttpResponse × Client) :=
  match route with
  | .reload => reload client
  | .rebalance => withForm client (request.form RebalanceForm.read) (rebalance client)
  | .deposit => withForm client (request.form DepositForm.read) (deposit client pair)
  | .withdraw => withForm client (request.form WithdrawForm.read) (withdraw client pair)
  | route =>
    let response := read client route
    pure (if request.method == "HEAD" then response.withhold else response, client)

/-! ## Around a call -/

/-- The header that holds the key. -/
def keyHeader : String := "x-api-key"

/-- Whether a request may go on to its route. -/
def isAdmitted (config : ServiceConfig) (route : Route) (request : HttpRequest) : Bool :=
  !route.isGuarded || config.admits (request.readable? keyHeader)

/-- What the service is at a request: the client, whether a call is under way, a pair for a
wrapped account, and the time. -/
structure State where
  client : Client
  isBusy : Bool
  pair : Keypair
  now : Nat

/-- Answers a request by its route. -/
def dispatch (config : ServiceConfig) (state : State) (request : HttpRequest) :
    Dialogue (HttpResponse × Client) :=
  let client := state.client
  match Route.ofPath? request.path with
  | none => pure (.bare 404, client)
  | some route =>
    if !isAdmitted config route request then pure (.bare 401, client)
    else if !route.takes request.method then pure (.bare 405, client)
    else if route = .health then
      let record := if state.isBusy then none else some client.record
      let response := HttpResponse.ofJson 200 (Answer.health record state.now)
      pure (if request.method == "HEAD" then response.withhold else response, client)
    else carryOut client state.pair route request

/-- Whether a text may be the value of a header. -/
def isHeaderValue (text : String) : Bool :=
  (Bytes.ofText text).all fun b => b == 9 || (32 ≤ b && b != 127)

/-- The origin of a request, if browsers may call from there. -/
def allowedOrigin? (config : ServiceConfig) (request : HttpRequest) : Option String :=
  (request.header? "origin").filter fun origin =>
    (config.origins.filter isHeaderValue).contains origin

/-- Tells browsers whether they may call. -/
def share (config : ServiceConfig) (request : HttpRequest) (response : HttpResponse) :
    HttpResponse :=
  { response with allowOrigin := allowedOrigin? config request }

/-- The answer to a browser's question what it may do. -/
def preflight : HttpResponse :=
  { HttpResponse.bare 200 with
    allowMethods := some "GET,POST"
    allowHeaders := some s!"content-type,{keyHeader}" }

/-- Answers a request. -/
def handle (config : ServiceConfig) (state : State) (request : HttpRequest) :
    Dialogue (HttpResponse × Client) :=
  if request.declaredLength?.any (bodyLimit < ·) then pure (.bare 413, state.client)
  else if request.method == "OPTIONS" then
    pure (share config request preflight, state.client)
  else do
    let (response, client) ← dispatch config state request
    pure (share config request response, client)

end Service

end YieldVault
