-- The law of failing up front: what a call fails of is either found before anything
-- is sent, or is the ledger's refusal of a batch that was sent. Once a plan is laid
-- out nothing but the ledger can stop it, since all of it can be handed over.
import YieldVault.Proofs.Reports

namespace YieldVault

open Dialogue (Runs)

/-! ## Errors that tell of a refusal -/

/-- The errors that a refusal can turn up as: itself, or what failed of a wrapped account. -/
inductive Error.Tells (place : Nat) (r : Rejection) : Error → Prop
  | batch : Tells place r (.batchRejected place r.code r.reason)
  | account (account : Key) (stage : WrapStage) :
      Tells place r
        (.wrappedAsset account stage (Error.batchRejected place r.code r.reason).message)

namespace Sent

/-- Whether an error tells of a refusal among some batches. -/
def Refused (sent : List Sent) (e : Error) : Prop :=
  ∃ place batch r, sent[place]? = some ⟨batch, .error r⟩ ∧ e.Tells place r

/-- A batch keeps its place when others follow. -/
theorem Refused.append {sent : List Sent} {e : Error} (h : Refused sent e) (later : List Sent) :
    Refused (sent ++ later) e := by
  obtain ⟨place, batch, r, hat, htells⟩ := h
  have hlt : place < sent.length := (List.getElem?_eq_some_iff.1 hat).1
  exact ⟨place, batch, r, by rwa [List.getElem?_append_left hlt], htells⟩

end Sent

/-- A verdict against batches is a refusal among them, whatever went before. -/
theorem Delivered.refused_behind {batches : List Batch} {first later : List Sent} {e : Error}
    (h : Delivered batches later) (he : Sent.verdict first.length later = .error e) :
    ∃ place batch r, (first ++ later)[place]? = some ⟨batch, .error r⟩ ∧
      e = .batchRejected place r.code r.reason := by
  obtain ⟨k, batch, r, hk, rfl⟩ := h.exists_refused he
  refine ⟨first.length + k, batch, r, ?_, rfl⟩
  rwa [List.getElem?_append_right (Nat.le_add_right _ _), Nat.add_sub_cancel_left]

namespace ScopedPlan

variable {plan : ScopedPlan}

/-- A refused setup is told as it is, or as a failure of the wrapped account. -/
theorem tells_setupFailure (plan : ScopedPlan) (place : Nat) (r : Rejection) :
    (plan.setupFailure (.batchRejected place r.code r.reason)).Tells place r := by
  unfold setupFailure
  cases plan.scope with
  | none => exact .batch
  | some scope => exact .account _ _

/-- A failed closing is the refusal of a batch. -/
theorem refused_closingFailure {batches : List Batch} {first later : List Sent} {e : Error}
    (h : Delivered batches later)
    (he : plan.closingFailure (Sent.verdict first.length later) = some e) :
    Sent.Refused (first ++ later) e := by
  cases hverdict : Sent.verdict first.length later with
  | ok =>
    rw [hverdict] at he
    cases he
  | error cause =>
    obtain ⟨place, batch, r, hat, rfl⟩ := h.refused_behind hverdict
    rw [hverdict] at he
    obtain ⟨scope, -, rfl⟩ := Option.map_eq_some_iff.1 he
    exact ⟨place, batch, r, hat, .account _ _⟩

/-- On every course the call fails of a refusal, and so does the closing. -/
theorem Course.refused {sent release : List Sent} {failure : ExecutionError}
    (h : plan.Course sent release (.error failure)) :
    Sent.Refused (sent ++ release) failure.source ∧
      ∀ e, failure.cleanup = some e → Sent.Refused (sent ++ release) e := by
  generalize houtcome : (Except.error failure : ExecutionResult) = outcome at h
  cases h with
  | refusedBefore hfirst hrefused =>
    cases houtcome
    obtain ⟨place, batch, r, hat, rfl⟩ := hfirst.exists_refused hrefused
    rw [Nat.zero_add, List.append_nil]
    refine ⟨⟨place, batch, r, hat, .batch⟩, ?_⟩
    rintro e ⟨⟩
  | refusedSetup hfirst hok hsecond hrefused =>
    cases houtcome
    obtain ⟨place, batch, r, hat, rfl⟩ := hsecond.refused_behind hrefused
    refine ⟨⟨place, batch, r, by simpa using hat, plan.tells_setupFailure place r⟩, ?_⟩
    rintro e ⟨⟩
  | @main first second third release hfirst hok hsecond hsecondok hthird hrelease =>
    have hclosing : ∀ e, plan.closingFailure
        (Sent.verdict (first ++ second ++ third).length release) = some e →
        Sent.Refused (first ++ second ++ third ++ release) e :=
      fun e he => refused_closingFailure hrelease he
    generalize plan.closingFailure
      (Sent.verdict (first ++ second ++ third).length release) = cleanup at houtcome hclosing
    cases hverdict : Sent.verdict (first ++ second).length third with
    | ok =>
      rw [hverdict] at houtcome
      cases cleanup with
      | none => cases houtcome
      | some e =>
        cases houtcome
        refine ⟨hclosing e rfl, ?_⟩
        rintro e ⟨⟩
    | error e =>
      rw [hverdict] at houtcome
      cases houtcome
      obtain ⟨place, batch, r, hat, rfl⟩ := hthird.refused_behind hverdict
      have hrefused : Sent.Refused (first ++ second ++ third)
          (.batchRejected place r.code r.reason) := ⟨place, batch, r, hat, .batch⟩
      exact ⟨hrefused.append release, hclosing⟩

end ScopedPlan

/-- Whether an error tells of a refusal among some submissions. -/
def RefusedAmong (sent : List Exchange) (e : Error) : Prop :=
  ∃ (place : Nat) (instructions : List Instruction) (signers : List Keypair) (r : Rejection),
    sent[place]? = some ⟨.submit instructions signers, .error r⟩ ∧ e.Tells place r

/-- A refused batch is a refused submission. -/
theorem Sent.Refused.among {encoder : Encoder} {keyring : List Keypair} {sent : List Sent}
    {exchanges : List Exchange} {e : Error} (h : Sent.Refused sent e)
    (hreached : List.Forall₂ (Sent.Reached encoder keyring) sent exchanges) :
    RefusedAmong exchanges e := by
  obtain ⟨place, batch, r, hat, htells⟩ := h
  obtain ⟨hlt, hget⟩ := List.getElem?_eq_some_iff.1 hat
  have hlt' : place < exchanges.length := by rwa [← hreached.length_eq]
  have hthere := hreached.get hlt hlt'
  obtain ⟨instructions, signers, -, hexchange⟩ := hthere
  refine ⟨place, instructions, signers, r, ?_, htells⟩
  rw [List.getElem?_eq_getElem hlt']
  simp only [List.get_eq_getElem, hget] at hexchange
  rw [hexchange]

/-! ## The law -/

/-- Whatever the ledger answers, a call that fails before it reads the vault anew either sent
nothing, or fails of a batch that the ledger refused, as does the closing of its wrapped account if
that fails too. Once the call is planned, each of its batches has instructions, and each signer of
it a pair at hand. -/
theorem a_call_fails_up_front_or_of_a_refusal {client after : Client} {call : VaultCall}
    {exchanges : List Exchange} {result : ExecutionResult}
    (hrun : Runs (call.perform client) exchanges (result, after)) :
    ∃ executed closed outcome, exchanges = executed ++ closed ∧
      Runs (client.execute (call.plan client)) executed outcome ∧
      Runs (client.finish outcome) closed (result, after) ∧
      (∀ failure, outcome = .error failure →
        (submissions exchanges = [] ∧ failure.confirmed = [] ∧ failure.cleanup = none) ∨
        (RefusedAmong (submissions exchanges) failure.source ∧
          ∀ e, failure.cleanup = some e → RefusedAmong (submissions exchanges) e)) ∧
      ∀ asked plan, Call.Runs (call.plan client) asked (.ok plan) →
        ∀ batch ∈ plan.planned ++ plan.closing,
          (∃ instructions, client.encoder.encode batch = .ok instructions) ∧
          ∀ signer ∈ batch.signers, ∃ pair ∈ plan.keyring, pair.address = signer := by
  obtain ⟨executed, closed, outcome, rfl, hexecuted, hclosed, hquiet, hcourse⟩ :=
    VaultCall.course_of_runs_perform hrun
  have hsame : submissions (executed ++ closed) = submissions executed := by
    rw [submissions_append, hquiet, List.append_nil]
  refine ⟨executed, closed, outcome, rfl, hexecuted, hclosed, fun failure hfailed => ?_,
    fun asked plan hplan batch hbatch => ?_⟩
  · rw [hsame]
    rcases hcourse with ⟨e, -, hnone, hearly⟩ |
      ⟨plan, asked, later, sent, release, -, -, hcourse, hreached⟩
    · rw [hearly] at hfailed
      cases hfailed
      exact .inl ⟨hnone, rfl, rfl⟩
    · rw [hfailed] at hcourse
      obtain ⟨hsource, hcleanup⟩ := hcourse.refused
      exact .inr ⟨hsource.among hreached, fun e he => (hcleanup e he).among hreached⟩
  · have hlaid := VaultCall.laidOut_of_runs_plan hplan
    exact ⟨Encoder.exists_operations client.wired (hlaid.within batch hbatch),
      hlaid.signers batch hbatch⟩

namespace OneVenue

theorem a_refused_withdrawal_fails_of_its_refusal :
    Runs ((VaultCall.withdraw pair 500).perform client) refusedExchanges (refusedResult, client) ∧
    ∃ executed closed outcome, refusedExchanges = executed ++ closed ∧
      Runs (client.execute ((VaultCall.withdraw pair 500).plan client)) executed outcome ∧
      Runs (client.finish outcome) closed (refusedResult, client) ∧
      (∀ failure, outcome = .error failure →
        (submissions refusedExchanges = [] ∧ failure.confirmed = [] ∧ failure.cleanup = none) ∨
        (RefusedAmong (submissions refusedExchanges) failure.source ∧
          ∀ e, failure.cleanup = some e → RefusedAmong (submissions refusedExchanges) e)) ∧
      ∀ asked plan, Call.Runs ((VaultCall.withdraw pair 500).plan client) asked (.ok plan) →
        ∀ batch ∈ plan.planned ++ plan.closing,
          (∃ instructions, client.encoder.encode batch = .ok instructions) ∧
          ∀ signer ∈ batch.signers, ∃ pair ∈ plan.keyring, pair.address = signer :=
  ⟨runs_refused_withdrawal, a_call_fails_up_front_or_of_a_refusal runs_refused_withdrawal⟩

end OneVenue

end YieldVault
