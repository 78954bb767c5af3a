-- Forms: what the bodies of requests hold.
import YieldVault.Json.Decode
import YieldVault.Service.MediaType
import YieldVault.Service.Message

namespace YieldVault

open Json (Fault)

/-- A deposit that is asked for; its parts are still text. -/
structure DepositForm where
  amount : String
  source : Option String
  deriving DecidableEq, Repr

structure WithdrawForm where
  amount : String
  deriving DecidableEq, Repr

structure RebalanceForm where
  weights : Option Weights
  deriving DecidableEq

namespace DepositForm

def read (json : Json) : Except Fault DepositForm := do
  let fields ← json.readRecord "DepositRequest"
    [.required "amount" fun json => some <$> json.readText,
      .optional "source" (Json.readOption Json.readText) none]
  match fields with
  | [some amount, source] => pure ⟨amount, source⟩
  | _ => throw (.malformed "expected value")

end DepositForm

namespace WithdrawForm

def read (json : Json) : Except Fault WithdrawForm := do
  let fields ← json.readRecord "WithdrawRequest" [.required "amount" Json.readText]
  pure ⟨String.join fields⟩

end WithdrawForm

namespace RebalanceForm

def read (json : Json) : Except Fault RebalanceForm := do
  let fields ← json.readRecord "RebalanceRequest"
    [.optional "weights" (Json.readOption Json.readWeights) none]
  pure ⟨fields.head?.join⟩

end RebalanceForm

/-! ## Bodies -/

/-- The most bytes of a body. -/
def bodyLimit : Nat := 16 * 1024

/-- The most bytes that are taken from a body whose headers declare a length. -/
def HttpRequest.allowance (request : HttpRequest) : Nat :=
  min bodyLimit (request.declaredLength?.getD bodyLimit)

/-- Whether the body is declared to be JSON. -/
def HttpRequest.declaresJson (request : HttpRequest) : Bool :=
  ((request.readable? "content-type").bind MediaType.ofText?).any MediaType.isJson

/-- Reads the form in a body, or gives the status that refuses it: the type is looked at first,
then the length, then the text. -/
def HttpRequest.form {α : Type} (request : HttpRequest) (decode : Json → Except Fault α) :
    Except Nat α :=
  if !request.declaresJson then .error 415
  else if request.allowance < request.body.length then .error 413
  else
    match String.fromUTF8? request.body.toByteArray with
    | none => .error 400
    | some text =>
      match (Json.Document.ofText text).read decode with
      | .ok form => .ok form
      | .error (.malformed _) => .error 400
      | .error (.mismatch _) => .error 422

end YieldVault
