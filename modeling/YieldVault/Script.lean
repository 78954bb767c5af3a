-- A scripted ledger: a small world of accounts around one vault, and a script
-- that says which questions go wrong and what each transaction changes. It is
-- what calls are rehearsed on; everything asked of it is kept in a log.
import YieldVault.Ledger
import YieldVault.Record

namespace YieldVault

/-! ## Worlds -/

/-- A vault with its share supply and its reserve, and accounts that are set by hand. -/
structure World where
  vault : Key
  account : VaultAccount
  supply : UInt64
  reserve : UInt64
  /-- Accounts set by hand, the last set first; nothing stands for an absent one. -/
  set : List (Key × Option Bytes)

namespace World

/-- The world with an account set by hand. -/
def put (world : World) (key : Key) (data : Option Bytes) : World :=
  { world with set := (key, data) :: world.set.filter (·.1 ≠ key) }

/-- The world with an account no longer set by hand. -/
def unset (world : World) (key : Key) : World :=
  { world with set := world.set.filter (·.1 ≠ key) }

/-- The data of the vault's share mint. -/
def mintData (world : World) : Bytes := Token.mintData world.supply

/-- The data of the vault's reserve account. -/
def reserveData (world : World) : Bytes :=
  Token.holdingData world.account.reserveMint.bytes world.account.authority.bytes world.reserve

/-- The data of an account: what was set by hand, else what belongs to the vault. -/
def data? (world : World) (key : Key) : Option Bytes :=
  match world.set.find? (·.1 = key) with
  | some (_, data) => data
  | none =>
    if key = world.vault then some world.account.encode
    else if key = world.account.shareMint then some world.mintData
    else if key = world.account.reserveToken then some world.reserveData
    else none

end World

/-! ## Scripts -/

/-- What becomes of one simulation. -/
structure SimulationCue where
  /-- Seconds that the answer takes. -/
  delay : Nat
  /-- The question does not get through. -/
  transport : Option String
  change : World → World
  rejection : Option Rejection
  logs : List String
  /-- The data handed back, in place of what the changed world holds. -/
  accounts : Option (List (Option Bytes))

/-- A simulation that goes well and changes nothing. -/
def SimulationCue.plain : SimulationCue := ⟨0, none, id, none, [], none⟩

/-- What becomes of one submitted batch. A refused one may still change the world. -/
structure SubmissionCue where
  change : World → World
  rejection : Option Rejection

/-- A batch that is taken and changes nothing. -/
def SubmissionCue.plain : SubmissionCue := ⟨id, none⟩

structure Script where
  world : World
  /-- What goes wrong with the next readings of accounts. -/
  readings : List (Option String)
  simulations : List SimulationCue
  submissions : List SubmissionCue
  rent : UInt64
  /-- What goes wrong with every reading of the rent. -/
  rentFault : Option String
  /-- Seconds since the script was started. -/
  clock : Nat
  /-- The batches submitted so far, refused ones included. -/
  submitted : Nat
  /-- Everything asked so far, the last first. -/
  log : List Request

namespace Script

/-- The signature of the n-th batch. -/
def signature (n : Nat) : Signature := ⟨List.replicate 64 (UInt8.ofNat n)⟩

/-- The account that holds some data. -/
def stored (data : Bytes) : StoredAccount := ⟨1, data, Key.tokenProgram⟩

def readAccount (s : Script) (key : Key) : Except Error (Option StoredAccount) × Script :=
  let reply := match s.readings.head?.join with
    | some text => .error (.transport text)
    | none => .ok ((s.world.data? key).map stored)
  (reply, { s with readings := s.readings.tail })

def readRent (s : Script) : Except Error UInt64 :=
  match s.rentFault with
  | some text => .error (.transport text)
  | none => .ok s.rent

/-- The next simulation. -/
def simulationCue (s : Script) : SimulationCue := s.simulations.head?.getD .plain

def runSimulation (s : Script) (accounts : List Key) : Except Error Simulation :=
  let cue := s.simulationCue
  match cue.transport with
  | some text => .error (.transport text)
  | none =>
    let world := cue.change s.world
    .ok ⟨cue.rejection, cue.logs, cue.accounts.getD (accounts.map world.data?)⟩

def takeBatch (s : Script) : Except Rejection Signature × Script :=
  let cue := s.submissions.head?.getD .plain
  let n := s.submitted + 1
  let reply := match cue.rejection with
    | some rejection => .error rejection
    | none => .ok (signature n)
  (reply, { s with
    world := cue.change s.world
    submissions := s.submissions.tail
    submitted := n })

/-- Answers a question. -/
def answer (s : Script) (request : Request) : Reply request × Script :=
  let s := { s with log := request :: s.log }
  match request with
  | .account key => s.readAccount key
  | .rent _ => (s.readRent, s)
  | .simulate _ accounts =>
    (s.runSimulation accounts, { s with simulations := s.simulations.tail })
  | .submit .. => s.takeBatch

/-- Seconds that the answer to a question takes. -/
def delayOf (s : Script) : Request → Nat
  | .simulate .. => s.simulationCue.delay
  | _ => 0

/-- Who signed the logged batches beside the payer, in order. -/
def signers (s : Script) : List Key :=
  s.log.reverse.flatMap fun
    | .submit _ pairs => pairs.map (·.address)
    | _ => []

/-! ## Rehearsals against the clock -/

/-- A dialogue on the clock: it is at its end, or waits for an answer. -/
inductive Paused (α : Type)
  | finished (value : α)
  | asleep (wake : Nat) (rest : Dialogue α)

/-- Goes on with a dialogue as long as its answers come in time. -/
def runTo {α : Type} (deadline : Nat) : Dialogue α → Script → Paused α × Script
  | .done value, s => (.finished value, s)
  | .ask request next, s =>
    let wake := s.clock + s.delayOf request
    let (reply, s) := s.answer request
    if wake ≤ deadline then runTo deadline (next reply) { s with clock := wake }
    else (.asleep wake (next reply), s)

end Script

end YieldVault
