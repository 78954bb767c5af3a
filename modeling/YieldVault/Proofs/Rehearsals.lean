-- The laws of rehearsals: a dialogue held with a script is one of its runs, and the log
-- gains just what was asked. A rehearsal that stops at a time and is gone on with later
-- is the same rehearsal as without the stop.
import YieldVault.Proofs.Dialogues
import YieldVault.Script

namespace YieldVault

open Dialogue (Runs)

/-- A dialogue of two is held by holding the first, and then the other with what is left of the
ledger. -/
theorem Dialogue.run_bind {σ α β : Type} (answer : Answerer σ) (d : Dialogue α)
    (f : α → Dialogue β) (s : σ) :
    (d >>= f).run answer s = (f (d.run answer s).1).run answer (d.run answer s).2 := by
  induction d generalizing s with
  | done value => rfl
  | ask request next ih =>
    rw [ask_bind]
    exact ih _ _

namespace Script

variable {α : Type}

/-! ## Answers -/

/-- What is asked is logged, whatever the answer. -/
theorem log_answer (s : Script) (request : Request) :
    (s.answer request).2.log = request :: s.log := by
  cases request <;> rfl

/-- Only the batches that are sent are counted. -/
theorem submitted_answer (s : Script) (request : Request) :
    (s.answer request).2.submitted = s.submitted + request.submits.toNat := by
  cases request <;> rfl

/-- No answer depends on the clock, and none moves it. -/
theorem answer_clock (s : Script) (request : Request) (clock : Nat) :
    answer { s with clock := clock } request =
      ((s.answer request).1, { (s.answer request).2 with clock := clock }) := by
  cases request <;> rfl

/-- A batch that is taken is signed with its number. -/
theorem eq_signature_of_answer {s : Script} {request : Request} {instructions : List Instruction}
    {pairs : List Keypair} {taken : Signature}
    (h : (⟨request, (s.answer request).1⟩ : Exchange) =
      ⟨.submit instructions pairs, .ok taken⟩) :
    taken = signature (s.submitted + 1) := by
  obtain ⟨rfl, hreply⟩ := Sigma.mk.inj h
  have htaken := eq_of_heq hreply
  unfold answer takeBatch at htaken
  dsimp only at htaken
  split at htaken
  · cases htaken
  · cases htaken
    rfl

/-! ## Whole rehearsals -/

theorem run_clock (d : Dialogue α) (s : Script) (clock : Nat) :
    d.run answer { s with clock := clock } =
      ((d.run answer s).1, { (d.run answer s).2 with clock := clock }) := by
  induction d generalizing s with
  | done value => rfl
  | ask request next ih =>
    simp only [Dialogue.run, answer_clock]
    exact ih _ _

theorem log_run (d : Dialogue α) (s : Script) :
    (d.run answer s).2.log = ((d.exchanges answer s).map (·.1)).reverse ++ s.log := by
  induction d generalizing s with
  | done value => rfl
  | ask request next ih =>
    simp only [Dialogue.run, Dialogue.exchanges, ih, log_answer]
    simp

theorem submitted_run (d : Dialogue α) (s : Script) :
    (d.run answer s).2.submitted =
      s.submitted + (YieldVault.submissions (d.exchanges answer s)).length := by
  induction d generalizing s with
  | done value => rfl
  | ask request next ih =>
    simp only [Dialogue.run, Dialogue.exchanges, ih, submitted_answer]
    cases hsubmits : request.submits <;> simp [YieldVault.submissions, hsubmits]
    omega

/-- A batch that is taken in a rehearsal is signed with its number, refused ones counted with it. -/
theorem eq_signature_of_exchanges {d : Dialogue α} {s : Script} {k : Nat}
    {instructions : List Instruction} {pairs : List Keypair} {taken : Signature}
    (h : (YieldVault.submissions (d.exchanges answer s))[k]? =
      some ⟨.submit instructions pairs, .ok taken⟩) :
    taken = signature (s.submitted + k + 1) := by
  induction d generalizing s k with
  | done value => simp [Dialogue.exchanges] at h
  | ask request next ih =>
    have hcount := s.submitted_answer request
    simp only [Dialogue.exchanges, YieldVault.submissions] at h
    cases hsubmits : request.submits with
    | false =>
      rw [List.filter_cons_of_neg (by simp [hsubmits])] at h
      rw [hsubmits, Bool.toNat_false] at hcount
      rw [ih _ h, hcount]
      rfl
    | true =>
      rw [List.filter_cons_of_pos (by simp [hsubmits])] at h
      rw [hsubmits, Bool.toNat_true] at hcount
      cases k with
      | zero =>
        rw [List.getElem?_cons_zero, Option.some.injEq] at h
        exact eq_signature_of_answer h
      | succ k =>
        rw [List.getElem?_cons_succ] at h
        rw [ih _ h, hcount, Nat.add_right_comm s.submitted 1 k, Nat.add_assoc s.submitted k 1]

/-- A rehearsal is one of the runs of its dialogue, by the answers that the script gives. The script
logs what is asked and counts the batches that are sent, and does nothing else to the two. -/
theorem a_rehearsal_is_a_run (d : Dialogue α) (s : Script) :
    Runs d (d.exchanges answer s) (d.run answer s).1 ∧
    (d.run answer s).2.log = ((d.exchanges answer s).map (·.1)).reverse ++ s.log ∧
    (d.run answer s).2.submitted =
      s.submitted + (YieldVault.submissions (d.exchanges answer s)).length :=
  ⟨d.runs_run answer s, log_run d s, submitted_run d s⟩

/-! ## Rehearsals against the clock -/

/-- Goes on with a rehearsal that waits for an answer, if the answer comes in time. -/
def resume (deadline : Nat) : Paused α × Script → Paused α × Script
  | (.finished value, s) => (.finished value, s)
  | (.asleep wake rest, s) =>
    if wake ≤ deadline then runTo deadline rest { s with clock := wake }
    else (.asleep wake rest, s)

/-- What is left of a rehearsal, without a look at the clock. -/
def complete : Paused α × Script → α × Script
  | (.finished value, s) => (value, s)
  | (.asleep _ rest, s) => rest.run answer s

variable {deadline : Nat}

theorem runTo_ask_of_le {request : Request} {next : Reply request → Dialogue α} {s : Script}
    (h : s.clock + s.delayOf request ≤ deadline) :
    runTo deadline (.ask request next) s =
      runTo deadline (next (s.answer request).1)
        { (s.answer request).2 with clock := s.clock + s.delayOf request } :=
  if_pos h

theorem runTo_ask_of_lt {request : Request} {next : Reply request → Dialogue α} {s : Script}
    (h : deadline < s.clock + s.delayOf request) :
    runTo deadline (.ask request next) s =
      (.asleep (s.clock + s.delayOf request) (next (s.answer request).1), (s.answer request).2) :=
  if_neg (Nat.not_le.2 h)

/-- What waits at the deadline is answered after it. -/
theorem lt_of_runTo_asleep {d rest : Dialogue α} {s s' : Script} {wake : Nat}
    (h : runTo deadline d s = (.asleep wake rest, s')) : deadline < wake := by
  induction d generalizing s with
  | done value => simp [runTo] at h
  | ask request next ih =>
    by_cases hle : s.clock + s.delayOf request ≤ deadline
    · rw [runTo_ask_of_le hle] at h
      exact ih _ h
    · rw [runTo_ask_of_lt (Nat.lt_of_not_le hle)] at h
      cases h
      exact Nat.lt_of_not_le hle

/-- A rehearsal that stops at a time and is gone on with up to a later one is the rehearsal up to
the later time. -/
theorem resume_runTo {earlier later : Nat} (h : earlier ≤ later) (d : Dialogue α) (s : Script) :
    resume later (runTo earlier d s) = runTo later d s := by
  induction d generalizing s with
  | done value => rfl
  | ask request next ih =>
    by_cases hle : s.clock + s.delayOf request ≤ earlier
    · rw [runTo_ask_of_le hle, runTo_ask_of_le (Nat.le_trans hle h)]
      exact ih _ _
    · rw [runTo_ask_of_lt (Nat.lt_of_not_le hle)]
      rfl

/-- However it is stopped, a rehearsal comes to what it comes to without a clock, and leaves the
same script but for the time. -/
theorem complete_runTo (deadline : Nat) (d : Dialogue α) (s : Script) :
    ∃ clock, complete (runTo deadline d s) =
      ((d.run answer s).1, { (d.run answer s).2 with clock := clock }) := by
  induction d generalizing s with
  | done value => exact ⟨s.clock, rfl⟩
  | ask request next ih =>
    by_cases hle : s.clock + s.delayOf request ≤ deadline
    · rw [runTo_ask_of_le hle]
      obtain ⟨clock, hclock⟩ := ih (s.answer request).1
        { (s.answer request).2 with clock := s.clock + s.delayOf request }
      rw [run_clock] at hclock
      exact ⟨clock, hclock⟩
    · rw [runTo_ask_of_lt (Nat.lt_of_not_le hle)]
      exact ⟨_, rfl⟩

/-- Nothing is taken out of the log. -/
theorem exists_log_runTo (deadline : Nat) (d : Dialogue α) (s : Script) :
    ∃ asked, (runTo deadline d s).2.log = asked ++ s.log := by
  induction d generalizing s with
  | done value => exact ⟨[], rfl⟩
  | ask request next ih =>
    by_cases hle : s.clock + s.delayOf request ≤ deadline
    · rw [runTo_ask_of_le hle]
      obtain ⟨asked, hasked⟩ := ih (s.answer request).1
        { (s.answer request).2 with clock := s.clock + s.delayOf request }
      refine ⟨asked ++ [request], ?_⟩
      rw [hasked]
      simp [log_answer]
    · rw [runTo_ask_of_lt (Nat.lt_of_not_le hle)]
      exact ⟨[request], log_answer s request⟩

end Script

end YieldVault
