-- The schedule of passes, rehearsed on a scripted ledger with a clock of its own.
import YieldVault.Script
import YieldVault.Service.Schedule

namespace YieldVault

/-- A schedule under way: its client as others see it, and the pass that waits for an answer, if
there is one. -/
structure Loop where
  client : Client
  ledger : Script
  ticker : Ticker
  pass : Option (Nat × Dialogue (Nat × Client))

namespace Loop

/-- A schedule from time zero on. -/
def start (client : Client) (ledger : Script) (interval : Nat) : Loop :=
  ⟨client, { ledger with clock := 0 }, .start interval, none⟩

/-- Takes in how far a pass has come. -/
def settle (loop : Loop) : Script.Paused (Nat × Client) × Script → Loop
  | (.finished (_, client), ledger) =>
    { loop with client := client, ledger := ledger, pass := none }
  | (.asleep wake rest, ledger) => { loop with ledger := ledger, pass := some (wake, rest) }

/-! ## Steps -/

/-- What a schedule turns to: the time of it, the schedule as it stands then, and what is to be
asked of its ledger from there on. -/
structure Turn where
  time : Nat
  loop : Loop
  rest : Dialogue (Nat × Client)

/-- Takes up the pass under way, when its answer comes. -/
def wakeUp (loop : Loop) (wake : Nat) (rest : Dialogue (Nat × Client)) : Turn :=
  ⟨wake, { loop with ledger := { loop.ledger with clock := wake } }, rest⟩

/-- Takes up a tick. The reload at the start of a pass is seen at once. -/
def tick (loop : Loop) (now : Nat) : Turn :=
  let ((reloaded, client), ledger) :=
    loop.client.reload.run Script.answer { loop.ledger with clock := now }
  ⟨now, { loop with client := client, ledger := ledger, ticker := loop.ticker.taken now },
    client.passAfter reloaded⟩

/-- What comes next: the pass under way, or else a tick, once it is due and the schedule free. -/
def turn (loop : Loop) : Turn :=
  match loop.pass with
  | some (wake, rest) => loop.wakeUp wake rest
  | none => loop.tick (max loop.ticker.due loop.ledger.clock)

/-- Takes up what comes next, if it comes up to a time, that time included. -/
def step? (deadline : Nat) (loop : Loop) : Option Loop :=
  let turn := loop.turn
  if turn.time ≤ deadline then
    some (turn.loop.settle (Script.runTo deadline turn.rest turn.loop.ledger))
  else none

/-- Takes steps, up to a number of them. -/
def advance (deadline : Nat) : (fuel : Nat) → Loop → Loop
  | 0, loop => loop
  | fuel + 1, loop =>
    match loop.step? deadline with
    | some next => advance deadline fuel next
    | none => loop

/-- Goes on up to a time. There is a tick a second at most, and a pass to go on with before the
first. A schedule without ticks stands still. -/
def advanceTo (loop : Loop) (deadline : Nat) : Loop :=
  if loop.ticker.ticks then advance deadline (deadline + 2) loop else loop

/-! ## Samples -/

/-- What is seen of a schedule at some time. -/
structure Sample where
  /-- The readings of the vault so far; they cannot be seen while a pass is under way. -/
  readings : Option Nat
  /-- What was asked since the last sample, the last first. -/
  asked : List Request

/-- A sample, when a schedule that opened at a version has come from one state to another. -/
def sample (opened : Nat) (before after : Loop) : Sample where
  readings := if after.pass.isSome then none else some (after.client.record.version - opened)
  asked := after.ledger.log.take (after.ledger.log.length - before.ledger.log.length)

/-- Samples, each some seconds after the one before. -/
def samples (opened : Nat) (loop : Loop) (now : Nat) : List Nat → List Sample × Loop
  | [] => ([], loop)
  | wait :: rest =>
    let next := loop.advanceTo (now + wait)
    let (others, last) := samples opened next (now + wait) rest
    (sample opened loop next :: others, last)

end Loop

end YieldVault
