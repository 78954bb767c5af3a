-- The courses of a plan: the ways in which its batches can come to be sent, and
-- what the call comes to on each. A run of a plan follows one of three courses: it
-- ends ahead of the setup, it ends at the setup, or it goes through the main batches
-- and the closing of the wrapped account.
import YieldVault.Proofs.Readiness

namespace YieldVault

open Dialogue (Runs)

namespace ScopedPlan

/-! ## Setups and closings -/

/-- What a failed closing is: a failure of the wrapped account. -/
def closingFailure (plan : ScopedPlan) : Except Error Unit → Option Error
  | .ok () => none
  | .error e => plan.scope.map fun scope => scope.1.failure .close e

variable {plan : ScopedPlan} {encoder : Encoder}

theorem sendSetup_eq (p : Progress) :
    plan.sendSetup encoder p =
      Batch.sendAll encoder plan.keyring plan.setup.toList p >>= fun result =>
        .done (result.1.mapError plan.setupFailure, result.2) := by
  unfold sendSetup
  cases plan.setup with
  | none => rfl
  | some setup =>
    simp only [Option.toList_some, Batch.sendAll, bind_assoc]
    congr 1
    funext result
    obtain ⟨outcome, p⟩ := result
    cases outcome <;> rfl

theorem sendCleanup_eq (p : Progress) :
    plan.sendCleanup encoder p =
      Batch.sendAll encoder plan.keyring plan.closing p >>= fun result =>
        .done (plan.closingFailure result.1, result.2) := by
  unfold sendCleanup closing closingFailure
  cases plan.scope with
  | none => rfl
  | some scope =>
    obtain ⟨w, cleanup⟩ := scope
    simp only [Option.map_some, Option.toList_some, Batch.sendAll, bind_assoc]
    congr 1
    funext result
    obtain ⟨outcome, p⟩ := result
    cases outcome <;> rfl

/-! ## Courses -/

/-- How a plan was sent: its batches, then those that close the wrapped account, and the result. -/
inductive Course (plan : ScopedPlan) : List Sent → List Sent → ExecutionResult → Prop
  /-- A batch ahead of the setup was refused. -/
  | refusedBefore {sent : List Sent} {e : Error} :
      Delivered plan.before sent → Sent.verdict 0 sent = .error e →
      Course plan sent [] (.error (.after (Sent.confirmations sent) e))
  /-- The setup was refused. -/
  | refusedSetup {first second : List Sent} {e : Error} :
      Delivered plan.before first → Sent.verdict 0 first = .ok () →
      Delivered plan.setup.toList second → Sent.verdict first.length second = .error e →
      Course plan (first ++ second) []
        (.error (.after (Sent.confirmations (first ++ second)) (plan.setupFailure e)))
  /-- The main batches were sent, and then the closing, whatever came of them. -/
  | main {first second third release : List Sent} :
      Delivered plan.before first → Sent.verdict 0 first = .ok () →
      Delivered plan.setup.toList second → Sent.verdict first.length second = .ok () →
      Delivered plan.main third → Delivered plan.closing release →
      Course plan (first ++ second ++ third) release
        (conclude (Sent.confirmations (first ++ second ++ third ++ release))
          (Sent.verdict (first ++ second).length third)
          (plan.closingFailure (Sent.verdict (first ++ second ++ third).length release)))

/-- On every course only batches of the plan are sent. -/
theorem Course.mem {sent release : List Sent} {outcome : ExecutionResult}
    (h : plan.Course sent release outcome) :
    ∀ s ∈ sent ++ release, s.batch ∈ plan.planned ++ plan.closing := by
  intro s hs
  simp only [planned, List.mem_append]
  cases h with
  | refusedBefore hfirst =>
    rw [List.append_nil] at hs
    exact .inl (.inl (.inl (hfirst.batch_mem hs)))
  | refusedSetup hfirst _ hsecond =>
    rw [List.append_nil] at hs
    rcases List.mem_append.1 hs with hs | hs
    · exact .inl (.inl (.inl (hfirst.batch_mem hs)))
    · exact .inl (.inl (.inr (hsecond.batch_mem hs)))
  | main hfirst _ hsecond _ hthird hrelease =>
    simp only [List.mem_append] at hs
    rcases hs with ((hs | hs) | hs) | hs
    · exact .inl (.inl (.inl (hfirst.batch_mem hs)))
    · exact .inl (.inl (.inr (hsecond.batch_mem hs)))
    · exact .inl (.inr (hthird.batch_mem hs))
    · exact .inr (hrelease.batch_mem hs)

/-- Every run of a plan whose batches can all be handed to the ledger follows a course. -/
theorem course_of_runs_send {exchanges : List Exchange} {result : ExecutionResult}
    (hready : ∀ batch ∈ plan.planned ++ plan.closing, batch.Sendable encoder plan.keyring)
    (hrun : Runs (plan.send encoder) exchanges result) :
    ∃ sent release, plan.Course sent release result ∧
      List.Forall₂ (Sent.Reached encoder plan.keyring) (sent ++ release) exchanges := by
  have hbefore : ∀ batch ∈ plan.before, batch.Sendable encoder plan.keyring :=
    fun batch hb => hready batch (by simp [planned, hb])
  have hsetup : ∀ batch ∈ plan.setup.toList, batch.Sendable encoder plan.keyring :=
    fun batch hb => hready batch (by simp only [planned, List.mem_append]; tauto)
  have hmain : ∀ batch ∈ plan.main, batch.Sendable encoder plan.keyring :=
    fun batch hb => hready batch (by simp [planned, hb])
  have hclosing : ∀ batch ∈ plan.closing, batch.Sendable encoder plan.keyring :=
    fun batch hb => hready batch (by simp [hb])
  unfold send at hrun
  obtain ⟨⟨outcome, p⟩, asked, later, rfl, hsend, hrun⟩ := Dialogue.runs_bind_iff.1 hrun
  obtain ⟨first, hfirst, hreached, hp, rfl⟩ :=
    Batch.delivered_of_runs_sendAll hbefore Progress.Reflects.start hsend
  rw [List.nil_append] at hp
  cases hfirstok : Sent.verdict 0 first with
  | error e =>
    simp only [List.length_nil, hfirstok] at hrun
    obtain ⟨rfl, rfl⟩ := Dialogue.runs_done_iff.1 hrun
    rw [hp.confirmed]
    exact ⟨first, [], .refusedBefore hfirst hfirstok, by simpa using hreached⟩
  | ok =>
    simp only [List.length_nil, hfirstok] at hrun
    rw [sendSetup_eq, bind_assoc] at hrun
    obtain ⟨⟨outcome, q⟩, asked', later, rfl, hsend, hrun⟩ := Dialogue.runs_bind_iff.1 hrun
    obtain ⟨second, hsecond, hreached', hq, rfl⟩ :=
      Batch.delivered_of_runs_sendAll hsetup hp hsend
    have hopening := List.rel_append hreached hreached'
    cases hsecondok : Sent.verdict first.length second with
    | error e =>
      simp only [hsecondok, Dialogue.done_bind, Except.mapError] at hrun
      obtain ⟨rfl, rfl⟩ := Dialogue.runs_done_iff.1 hrun
      rw [hq.confirmed]
      exact ⟨first ++ second, [], .refusedSetup hfirst hfirstok hsecond hsecondok,
        by simpa using hopening⟩
    | ok =>
      simp only [hsecondok, Dialogue.done_bind, Except.mapError] at hrun
      obtain ⟨⟨outcome, m⟩, mainly, later, rfl, hsend, hrun⟩ := Dialogue.runs_bind_iff.1 hrun
      obtain ⟨third, hthird, hreached'', hm, rfl⟩ :=
        Batch.delivered_of_runs_sendAll hmain hq hsend
      simp only [sendCleanup_eq, bind_assoc, Dialogue.done_bind] at hrun
      obtain ⟨⟨outcome, c⟩, lastly, later, rfl, hsend, hrun⟩ := Dialogue.runs_bind_iff.1 hrun
      obtain ⟨release, hrelease, hclosed, hc, rfl⟩ :=
        Batch.delivered_of_runs_sendAll hclosing hm hsend
      obtain ⟨rfl, rfl⟩ := Dialogue.runs_done_iff.1 hrun
      rw [hc.confirmed]
      refine ⟨first ++ second ++ third, release,
        .main hfirst hfirstok hsecond hsecondok hthird hrelease, ?_⟩
      simpa [List.append_assoc] using List.rel_append (List.rel_append hopening hreached'') hclosed

/-- All that such a run asks is to submit batches of the plan. -/
theorem exists_batch_of_runs_send {exchanges : List Exchange} {result : ExecutionResult}
    (hready : ∀ batch ∈ plan.planned ++ plan.closing, batch.Sendable encoder plan.keyring)
    (hrun : Runs (plan.send encoder) exchanges result) :
    ∀ exchange ∈ exchanges, ∃ batch ∈ plan.planned ++ plan.closing, ∃ instructions signers,
      batch.ready encoder plan.keyring = .ok (instructions, signers) ∧
      exchange.1 = .submit instructions signers := by
  intro exchange hmem
  obtain ⟨sent, release, hcourse, hreached⟩ := course_of_runs_send hready hrun
  obtain ⟨s, hs, instructions, signers, hsent, rfl⟩ := Sent.exists_of_mem_reached hreached hmem
  exact ⟨s.batch, hcourse.mem s hs, instructions, signers, hsent, rfl⟩

end ScopedPlan

end YieldVault
