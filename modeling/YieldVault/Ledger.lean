-- The ledger, as far as a client of a vault talks to it: what is asked, and what
-- an answer can be.
import YieldVault.Batch.Encoder

namespace YieldVault

/-- Why the ledger refused a transaction. -/
structure Rejection where
  /-- The code that the failing program gave, if it gave one. -/
  code : Option UInt32
  reason : String
  deriving DecidableEq, Repr

/-- What a simulated transaction came to. -/
structure Simulation where
  rejection : Option Rejection
  logs : List String
  /-- The data of the accounts that were asked for, in order, as it would be. -/
  accounts : List (Option Bytes)
  deriving DecidableEq, Repr

/-- The simulation, unless it was refused. -/
def Simulation.accepted (s : Simulation) : Except Error Simulation :=
  match s.rejection with
  | some r => .error (.simulationReverted r.code r.reason s.logs)
  | none => .ok s

/-- An account as the ledger stores it. -/
structure StoredAccount where
  lamports : UInt64
  data : Bytes
  owner : Key
  deriving DecidableEq, Repr

/-! ## Questions and answers -/

/-- What a client asks of the ledger. -/
inductive Request
  | account (address : Key)
  /-- The least balance that keeps an account of some width. -/
  | rent (width : Nat)
  /-- Runs instructions without effect, and reads the accounts as they would be. -/
  | simulate (instructions : List Instruction) (accounts : List Key)
  /-- Signs, sends, and waits until the batch is taken or refused. -/
  | submit (instructions : List Instruction) (signers : List Keypair)
  deriving DecidableEq

/-- What the ledger may answer. -/
def Reply : Request → Type
  | .account _ => Except Error (Option StoredAccount)
  | .rent _ => Except Error UInt64
  | .simulate .. => Except Error Simulation
  | .submit .. => Except Rejection Signature

/-- A question with the answer it got. -/
abbrev Exchange := (request : Request) × Reply request

/-! ## Dialogues -/

/-- A computation that asks the ledger now and then. -/
inductive Dialogue (α : Type) : Type
  | done (value : α)
  | ask (request : Request) (next : Reply request → Dialogue α)

namespace Dialogue

variable {α β : Type}

/-- The first dialogue, then the one that its result calls for. -/
protected def bind : Dialogue α → (α → Dialogue β) → Dialogue β
  | .done value, f => f value
  | .ask request next, f => .ask request fun reply => (next reply).bind f

instance : Monad Dialogue where
  pure := .done
  bind := Dialogue.bind

@[simp] theorem pure_eq (a : α) : (pure a : Dialogue α) = .done a := rfl

@[simp] theorem done_bind (a : α) (f : α → Dialogue β) : (Dialogue.done a >>= f) = f a := rfl

@[simp] theorem ask_bind (r : Request) (next : Reply r → Dialogue α) (f : α → Dialogue β) :
    (Dialogue.ask r next >>= f) = .ask r fun reply => next reply >>= f := rfl

theorem bind_done (d : Dialogue α) : d.bind .done = d := by
  induction d with
  | done => rfl
  | ask r next ih => simp [Dialogue.bind, ih]

theorem bind_assoc {γ : Type} (d : Dialogue α) (f : α → Dialogue β) (g : β → Dialogue γ) :
    (d.bind f).bind g = d.bind fun a => (f a).bind g := by
  induction d with
  | done => rfl
  | ask r next ih => simp [Dialogue.bind, ih]

/-- What a dialogue comes to when its questions get the listed answers, each in its turn. -/
inductive Runs : Dialogue α → List Exchange → α → Prop
  | done (value : α) : Runs (.done value) [] value
  | ask {request : Request} {next : Reply request → Dialogue α} {reply : Reply request}
      {later : List Exchange} {value : α} :
      Runs (next reply) later value → Runs (.ask request next) (⟨request, reply⟩ :: later) value

/-- Asks for an account. -/
def account (address : Key) : Dialogue (Except Error (Option StoredAccount)) :=
  .ask (.account address) .done

/-- Asks what keeps an account of some width. -/
def rent (width : Nat) : Dialogue (Except Error UInt64) := .ask (.rent width) .done

/-- Asks for a run without effect. -/
def simulate (instructions : List Instruction) (accounts : List Key) :
    Dialogue (Except Error Simulation) :=
  .ask (.simulate instructions accounts) .done

/-- Sends a batch. -/
def submit (instructions : List Instruction) (signers : List Keypair) :
    Dialogue (Except Rejection Signature) :=
  .ask (.submit instructions signers) .done

/-- A ledger with a state: what it answers, and what it is afterwards. -/
abbrev Answerer (σ : Type) := σ → (request : Request) → Reply request × σ

/-- Holds a dialogue with a ledger. -/
def run {σ : Type} (answer : Answerer σ) : Dialogue α → σ → α × σ
  | .done value, s => (value, s)
  | .ask request next, s =>
    let (reply, s) := answer s request
    (next reply).run answer s

/-- The exchanges of a dialogue with a ledger. -/
def exchanges {σ : Type} (answer : Answerer σ) : Dialogue α → σ → List Exchange
  | .done _, _ => []
  | .ask request next, s =>
    let (reply, s) := answer s request
    ⟨request, reply⟩ :: (next reply).exchanges answer s

/-- Holding a dialogue is one of its runs. -/
theorem runs_run {σ : Type} (answer : Answerer σ) (d : Dialogue α) (s : σ) :
    Runs d (d.exchanges answer s) (d.run answer s).1 := by
  induction d generalizing s with
  | done value => exact .done value
  | ask request next ih => exact .ask (ih _ _)

end Dialogue

/-- A dialogue that may stop at an error. -/
abbrev Call := ExceptT Error Dialogue

end YieldVault
