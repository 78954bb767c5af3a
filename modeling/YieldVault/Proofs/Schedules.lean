-- The laws of schedules: ticks are due at multiples of the interval, and those that a pass
-- has outlasted are left out; and a schedule that is looked at now and then goes the way of
-- one that is not.
import Mathlib.Algebra.Ring.Nat
import YieldVault.Proofs.Rehearsals
import YieldVault.Script.Loop

namespace YieldVault

/-! ## Ticks -/

namespace Ticker

variable {t : Ticker} {now : Nat}

/-- A ticker whose ticks are due at multiples of its interval. -/
structure Regular (t : Ticker) : Prop where
  positive : 0 < t.interval
  dvd : t.interval ∣ t.due

theorem regular_start {interval : Nat} (h : 0 < interval) : (start interval).Regular :=
  ⟨h, Nat.dvd_refl interval⟩

@[simp] theorem interval_taken (t : Ticker) (now : Nat) : (t.taken now).interval = t.interval := by
  unfold taken
  split <;> rfl

/-- After a tick that was taken up, however late, the next is due at the first multiple of the
interval to come. -/
theorem due_taken (h : t.Regular) (hnow : t.due ≤ now) :
    (t.taken now).due = (now / t.interval + 1) * t.interval := by
  obtain ⟨hpositive, k, hk⟩ := h
  have hmod := Nat.mod_lt now hpositive
  have hdiv := Nat.div_add_mod now t.interval
  rw [Nat.add_mul, Nat.one_mul, Nat.mul_comm]
  unfold taken
  split
  · have hdue : now = t.interval * k := by omega
    rw [hdue, Nat.mul_div_cancel_left k hpositive, hk]
  · have hlate : (now - t.due) % t.interval = now % t.interval := by
      rw [hk, Nat.sub_mul_mod (by omega)]
    rw [hlate]
    dsimp only
    omega

theorem regular_taken (h : t.Regular) (hnow : t.due ≤ now) : (t.taken now).Regular := by
  constructor
  · simpa using h.positive
  · rw [due_taken h hnow, interval_taken]
    exact Nat.dvd_mul_left _ _

theorem lt_due_taken (h : t.Regular) (hnow : t.due ≤ now) : now < (t.taken now).due := by
  have hmod := Nat.mod_lt now h.positive
  have hdiv := Nat.div_add_mod now t.interval
  rw [due_taken h hnow, Nat.add_mul, Nat.one_mul, Nat.mul_comm]
  omega

end Ticker

namespace Loop

variable {loop next : Loop} {deadline earlier later : Nat}

/-! ## Turns -/

theorem turn_of_some {wake : Nat} {rest : Dialogue (Nat × Client)}
    (h : loop.pass = some (wake, rest)) : loop.turn = loop.wakeUp wake rest := by
  rw [turn, h]

theorem turn_of_none (h : loop.pass = none) :
    loop.turn = loop.tick (max loop.ticker.due loop.ledger.clock) := by
  rw [turn, h]

/-- A tick is not taken up before it is due. -/
theorem due_le_time (h : loop.pass = none) : loop.ticker.due ≤ loop.turn.time := by
  rw [turn_of_none h]
  exact Nat.le_max_left _ _

theorem ticker_turn_of_none (h : loop.pass = none) :
    loop.turn.loop.ticker = loop.ticker.taken loop.turn.time := by
  rw [turn_of_none h]
  rfl

theorem ticker_turn_of_some {waiting : Nat × Dialogue (Nat × Client)}
    (h : loop.pass = some waiting) : loop.turn.loop.ticker = loop.ticker := by
  rw [turn_of_some h]
  rfl

@[simp] theorem ticker_settle (loop : Loop) (p : Script.Paused (Nat × Client) × Script) :
    (loop.settle p).ticker = loop.ticker := by
  obtain ⟨⟨⟩ | ⟨⟩, ledger⟩ := p <;> rfl

@[simp] theorem ledger_settle (loop : Loop) (p : Script.Paused (Nat × Client) × Script) :
    (loop.settle p).ledger = p.2 := by
  obtain ⟨⟨⟩ | ⟨⟩, ledger⟩ := p <;> rfl

/-! ## Steps -/

theorem step?_eq_some_iff :
    loop.step? deadline = some next ↔ loop.turn.time ≤ deadline ∧
      next = loop.turn.loop.settle
        (Script.runTo deadline loop.turn.rest loop.turn.loop.ledger) := by
  dsimp only [step?]
  split
  · rename_i hle
    simp [hle, eq_comm]
  · rename_i hlate
    simp [hlate]

theorem step?_eq_none_iff : loop.step? deadline = none ↔ deadline < loop.turn.time := by
  dsimp only [step?]
  split
  · rename_i hle
    simp [hle]
  · rename_i hlate
    simpa using hlate

theorem regular_of_step (hregular : loop.ticker.Regular) (h : loop.step? deadline = some next) :
    next.ticker.Regular := by
  obtain ⟨-, rfl⟩ := step?_eq_some_iff.1 h
  rw [ticker_settle]
  cases hpass : loop.pass with
  | some waiting => rwa [ticker_turn_of_some hpass]
  | none =>
    rw [ticker_turn_of_none hpass]
    exact Ticker.regular_taken hregular (due_le_time hpass)

/-- A pass that a step leaves under way is gone on with after the deadline. -/
theorem lt_time_of_step (h : loop.step? deadline = some next) (hpass : next.pass.isSome) :
    deadline < next.turn.time := by
  obtain ⟨-, rfl⟩ := step?_eq_some_iff.1 h
  cases hrun : Script.runTo deadline loop.turn.rest loop.turn.loop.ledger with
  | mk paused ledger =>
    rw [hrun] at hpass
    cases paused with
    | finished value => cases hpass
    | asleep wake rest => exact Script.lt_of_runTo_asleep hrun

/-! ## Going on -/

/-- How many steps there are up to a time, at the most: a tick each second, and one more if a pass
is to be gone on with. -/
def left (deadline : Nat) (loop : Loop) : Nat :=
  deadline + 1 - loop.ticker.due +
    if loop.pass.isSome ∧ loop.turn.time ≤ deadline then 1 else 0

theorem left_le (deadline : Nat) (loop : Loop) : loop.left deadline ≤ deadline + 2 := by
  unfold left
  split <;> omega

theorem left_lt_of_step (hregular : loop.ticker.Regular) (h : loop.step? deadline = some next) :
    next.left deadline < loop.left deadline := by
  have hwaits : ¬ (next.pass.isSome ∧ next.turn.time ≤ deadline) := by
    rintro ⟨hpass, hle⟩
    have hlt := lt_time_of_step h hpass
    omega
  obtain ⟨hle, hnext⟩ := step?_eq_some_iff.1 h
  have hticker : next.ticker = loop.turn.loop.ticker := by rw [hnext, ticker_settle]
  unfold left
  rw [if_neg hwaits, hticker]
  -- a pass that is gone on with is no longer left, and a tick takes its own second at least
  cases hpass : loop.pass with
  | some waiting =>
    rw [ticker_turn_of_some hpass, if_pos ⟨rfl, hle⟩]
    omega
  | none =>
    have hdue := due_le_time hpass
    have hlater := Ticker.lt_due_taken hregular hdue
    rw [ticker_turn_of_none hpass]
    omega

/-- What holds of schedules that have come to a time, and of any from which a step leads to one of
which it holds, holds of every schedule. -/
theorem induction_on_steps (deadline : Nat) {motive : (loop : Loop) → loop.ticker.Regular → Prop}
    (stop : ∀ loop hregular, loop.step? deadline = none → motive loop hregular)
    (step : ∀ loop hregular next (h : loop.step? deadline = some next),
      motive next (regular_of_step hregular h) → motive loop hregular)
    (loop : Loop) (hregular : loop.ticker.Regular) : motive loop hregular := by
  cases h : loop.step? deadline with
  | none => exact stop loop hregular h
  | some next =>
    exact step loop hregular next h
      (induction_on_steps deadline stop step next (regular_of_step hregular h))
termination_by loop.left deadline
decreasing_by exact left_lt_of_step hregular h

theorem advance_of_none (h : loop.step? deadline = none) (fuel : Nat) :
    advance deadline fuel loop = loop := by
  cases fuel with
  | zero => rfl
  | succ fuel => rw [advance, h]

/-- As many steps as are left are enough, and more of them change nothing. -/
theorem advance_of_left_le {fuel fuel' : Nat} (hregular : loop.ticker.Regular)
    (h : loop.left deadline ≤ fuel) (h' : loop.left deadline ≤ fuel') :
    advance deadline fuel loop = advance deadline fuel' loop := by
  induction loop, hregular using induction_on_steps deadline generalizing fuel fuel' with
  | stop loop hregular hstop => rw [advance_of_none hstop, advance_of_none hstop]
  | step loop hregular next hstep ih =>
    have hlt := left_lt_of_step hregular hstep
    obtain ⟨fuel, rfl⟩ := Nat.exists_eq_add_one_of_ne_zero (n := fuel) (by omega)
    obtain ⟨fuel', rfl⟩ := Nat.exists_eq_add_one_of_ne_zero (n := fuel') (by omega)
    simp only [advance, hstep]
    exact ih (by omega) (by omega)

/-! ## Schedules up to a time -/

theorem advanceTo_of_regular (hregular : loop.ticker.Regular) :
    loop.advanceTo deadline = advance deadline (deadline + 2) loop := by
  have hticks : loop.ticker.ticks := by simpa [Ticker.ticks] using hregular.positive
  rw [advanceTo, if_pos hticks]

theorem advanceTo_of_none (h : loop.step? deadline = none) : loop.advanceTo deadline = loop := by
  unfold advanceTo
  split
  · exact advance_of_none h _
  · rfl

/-- A schedule that has a step goes on from there. -/
theorem advanceTo_of_step (hregular : loop.ticker.Regular) (h : loop.step? deadline = some next) :
    loop.advanceTo deadline = next.advanceTo deadline := by
  have hlt := left_lt_of_step hregular h
  have hle := loop.left_le deadline
  have hnext := regular_of_step hregular h
  rw [advanceTo_of_regular hregular, advanceTo_of_regular hnext, advance, h]
  exact advance_of_left_le hnext (by omega) (by omega)

theorem regular_advanceTo (deadline : Nat) (hregular : loop.ticker.Regular) :
    (loop.advanceTo deadline).ticker.Regular := by
  induction loop, hregular using induction_on_steps deadline with
  | stop loop hregular hstop => rwa [advanceTo_of_none hstop]
  | step loop hregular next hstep ih => rwa [advanceTo_of_step hregular hstep]

/-- A schedule that has come to a time has nothing more to do up to that time. -/
theorem lt_time_advanceTo (deadline : Nat) (hregular : loop.ticker.Regular) :
    deadline < (loop.advanceTo deadline).turn.time := by
  induction loop, hregular using induction_on_steps deadline with
  | stop loop hregular hstop =>
    rw [advanceTo_of_none hstop]
    exact step?_eq_none_iff.1 hstop
  | step loop hregular next hstep ih => rwa [advanceTo_of_step hregular hstep]

/-! ## Stops -/

theorem settle_asleep (loop : Loop) (wake : Nat) (rest : Dialogue (Nat × Client))
    (ledger ledger' : Script) (p : Script.Paused (Nat × Client) × Script) :
    { loop.settle (.asleep wake rest, ledger) with ledger := ledger' }.settle p =
      loop.settle p := by
  obtain ⟨⟨⟩ | ⟨⟩, ledger⟩ := p <;> rfl

/-- A step up to an earlier time is one up to a later time, or leads to it by another step. -/
theorem step?_later (h : earlier ≤ later) (hstep : loop.step? earlier = some next) :
    ∃ next', loop.step? later = some next' ∧
      (next = next' ∨ next.step? later = some next') := by
  obtain ⟨hle, rfl⟩ := step?_eq_some_iff.1 hstep
  refine ⟨_, step?_eq_some_iff.2 ⟨Nat.le_trans hle h, rfl⟩, ?_⟩
  rw [← Script.resume_runTo h]
  cases hrun : Script.runTo earlier loop.turn.rest loop.turn.loop.ledger with
  | mk paused ledger =>
    cases paused with
    | finished value => exact .inl rfl
    | asleep wake rest =>
      -- what still waits at the earlier time may be answered by the later
      rw [Script.resume]
      split
      · rename_i hwake
        exact .inr (step?_eq_some_iff.2 ⟨hwake, (settle_asleep _ wake rest ledger _ _).symm⟩)
      · exact .inl rfl

/-- A schedule that is stopped at a time and gone on with goes the way of one that is not. -/
theorem advanceTo_advanceTo (h : earlier ≤ later) (hregular : loop.ticker.Regular) :
    (loop.advanceTo earlier).advanceTo later = loop.advanceTo later := by
  induction loop, hregular using induction_on_steps earlier with
  | stop loop hregular hstop => rw [advanceTo_of_none hstop]
  | step loop hregular next hstep ih =>
    obtain ⟨next', hlater, hnext⟩ := step?_later h hstep
    rw [advanceTo_of_step hregular hstep, ih, advanceTo_of_step hregular hlater]
    rcases hnext with rfl | hnext
    · rfl
    · exact advanceTo_of_step (regular_of_step hregular hstep) hnext

/-! ## Passes -/

/-- What the pass comes to that a schedule is at, or that it takes up next. -/
def outcome (loop : Loop) : Nat × Client :=
  (loop.turn.rest.run Script.answer loop.turn.loop.ledger).1

/-- What a free schedule takes up is a pass of its client, held with the ledger of that time. -/
theorem outcome_of_none (h : loop.pass = none) :
    loop.outcome =
      (loop.client.pass.run Script.answer { loop.ledger with clock := loop.turn.time }).1 := by
  rw [outcome, turn_of_none h, Client.pass, Dialogue.run_bind]
  rfl

/-- The time at which a pass is gone on with does not tell. -/
theorem outcome_of_some {wake : Nat} {rest : Dialogue (Nat × Client)}
    (h : loop.pass = some (wake, rest)) :
    loop.outcome = (rest.run Script.answer loop.ledger).1 := by
  have hclock := congrArg Prod.fst (Script.run_clock rest loop.ledger wake)
  rw [outcome, turn_of_some h]
  exact hclock

/-- A step brings a pass to its end, and makes the client what the pass makes of it, or leaves what
comes to the same. -/
theorem outcome_of_step (h : loop.step? deadline = some next) :
    (next.pass = none ∧ next.client = loop.outcome.2) ∨
      (next.pass.isSome ∧ next.outcome = loop.outcome) := by
  obtain ⟨-, rfl⟩ := step?_eq_some_iff.1 h
  obtain ⟨clock, hcomplete⟩ := Script.complete_runTo deadline loop.turn.rest
    loop.turn.loop.ledger
  have houtcome := congrArg Prod.fst hcomplete
  cases hrun : Script.runTo deadline loop.turn.rest loop.turn.loop.ledger with
  | mk paused ledger =>
    rw [hrun] at houtcome
    cases paused with
    | finished value => exact .inl ⟨rfl, congrArg Prod.snd houtcome⟩
    | asleep wake rest => exact .inr ⟨rfl, (outcome_of_some rfl).trans houtcome⟩

/-- Where a schedule stands after a step up to a time. -/
structure Stepped (deadline : Nat) (loop next : Loop) : Prop where
  /-- A schedule without a pass under way takes up a tick, once it is due. The next is due at the
  first multiple of the interval to come: those that a pass has outlasted are left out. -/
  ticked : loop.pass = none → loop.ticker.due ≤ loop.turn.time ∧
    next.ticker.due = (loop.turn.time / loop.ticker.interval + 1) * loop.ticker.interval
  /-- The tick is one for a whole pass of the client. -/
  begun : loop.pass = none → loop.outcome =
    (loop.client.pass.run Script.answer { loop.ledger with clock := loop.turn.time }).1
  /-- One that has a pass under way goes on with it, and leaves its ticks. -/
  resumed : loop.pass.isSome → next.ticker = loop.ticker
  /-- The pass is at its end, or it waits for an answer that comes later. -/
  settled : (next.pass = none ∧ next.client = loop.outcome.2) ∨
    (next.pass.isSome ∧ deadline < next.turn.time ∧ next.outcome = loop.outcome)

theorem stepped_of_step (hregular : loop.ticker.Regular) (h : loop.step? deadline = some next) :
    Stepped deadline loop next := by
  have hticker : next.ticker = loop.turn.loop.ticker := by
    rw [(step?_eq_some_iff.1 h).2, ticker_settle]
  refine ⟨fun hpass => ⟨due_le_time hpass, ?_⟩, outcome_of_none, fun hpass => ?_, ?_⟩
  · rw [hticker, ticker_turn_of_none hpass]
    exact Ticker.due_taken hregular (due_le_time hpass)
  · obtain ⟨waiting, hwaiting⟩ := Option.isSome_iff_exists.1 hpass
    rw [hticker, ticker_turn_of_some hwaiting]
  · rcases outcome_of_step h with hended | ⟨hpass, hsame⟩
    · exact .inl hended
    · exact .inr ⟨hpass, lt_time_of_step h hpass, hsame⟩

/-! ## Samples -/

/-- Nothing is taken out of the log. -/
theorem exists_log_step (h : loop.step? deadline = some next) :
    ∃ asked, next.ledger.log = asked ++ loop.ledger.log := by
  obtain ⟨-, rfl⟩ := step?_eq_some_iff.1 h
  rw [ledger_settle]
  obtain ⟨asked, hasked⟩ := Script.exists_log_runTo deadline loop.turn.rest
    loop.turn.loop.ledger
  have hturn : ∃ earlier, loop.turn.loop.ledger.log = earlier ++ loop.ledger.log := by
    cases hpass : loop.pass with
    | some waiting =>
      rw [turn_of_some hpass]
      exact ⟨[], rfl⟩
    | none =>
      rw [turn_of_none hpass]
      exact ⟨_, Script.log_run loop.client.reload _⟩
  obtain ⟨earlier, hearlier⟩ := hturn
  exact ⟨asked ++ earlier, by rw [hasked, hearlier, List.append_assoc]⟩

theorem exists_log_advance (deadline fuel : Nat) (loop : Loop) :
    ∃ asked, (advance deadline fuel loop).ledger.log = asked ++ loop.ledger.log := by
  induction fuel generalizing loop with
  | zero => exact ⟨[], rfl⟩
  | succ fuel ih =>
    cases hstep : loop.step? deadline with
    | none => exact ⟨[], by rw [advance_of_none hstep]; rfl⟩
    | some next =>
      obtain ⟨earlier, hearlier⟩ := exists_log_step hstep
      obtain ⟨asked, hasked⟩ := ih next
      refine ⟨asked ++ earlier, ?_⟩
      simp only [advance, hstep]
      rw [hasked, hearlier, List.append_assoc]

theorem exists_log_advanceTo (deadline : Nat) (loop : Loop) :
    ∃ asked, (loop.advanceTo deadline).ledger.log = asked ++ loop.ledger.log := by
  unfold advanceTo
  split
  · exact exists_log_advance _ _ loop
  · exact ⟨[], rfl⟩

/-- The samples of a schedule tell everything that is asked, each question once. -/
theorem log_samples (opened : Nat) (loop : Loop) (now : Nat) (waits : List Nat) :
    (loop.samples opened now waits).2.ledger.log =
      ((loop.samples opened now waits).1.map (·.asked)).reverse.flatten ++ loop.ledger.log := by
  induction waits generalizing loop now with
  | nil => rfl
  | cons wait waits ih =>
    obtain ⟨asked, hasked⟩ := exists_log_advanceTo (now + wait) loop
    have hsample : (sample opened loop (loop.advanceTo (now + wait))).asked = asked := by
      unfold sample
      rw [hasked]
      simp
    simp only [samples]
    rw [ih, hasked]
    simp [hsample]

/-- However often a schedule is looked at, it comes to where it comes unseen. -/
theorem samples_eq (opened now wait : Nat) (waits : List Nat)
    (hregular : loop.ticker.Regular) :
    (loop.samples opened now (wait :: waits)).2 = loop.advanceTo (now + (wait :: waits).sum) := by
  induction waits generalizing loop now wait with
  | nil => rfl
  | cons next waits ih =>
    rw [samples]
    simp only
    rw [ih _ _ (regular_advanceTo _ hregular), advanceTo_advanceTo _ hregular]
    · simp [Nat.add_assoc]
    · simp

/-- A schedule that is looked at now and then comes to the last of these times as one that is not
looked at does. It has nothing more to do up to then, and the samples tell everything that was
asked, each question once. -/
theorem a_schedule_is_not_disturbed_by_looking (client : Client) (ledger : Script) {interval : Nat}
    (h : 0 < interval) (opened wait : Nat) (waits : List Nat) :
    let loop := start client ledger interval
    let (samples, last) := loop.samples opened 0 (wait :: waits)
    last = loop.advanceTo (wait :: waits).sum ∧
    (wait :: waits).sum < last.turn.time ∧
    last.ledger.log = (samples.map (·.asked)).reverse.flatten ++ ledger.log := by
  intro loop
  have hregular : loop.ticker.Regular := Ticker.regular_start h
  have hlast := samples_eq opened 0 wait waits hregular
  have hafter := lt_time_advanceTo (wait :: waits).sum hregular
  rw [Nat.zero_add] at hlast
  rw [← hlast] at hafter
  exact ⟨hlast, hafter, log_samples opened loop 0 (wait :: waits)⟩

end Loop

end YieldVault
