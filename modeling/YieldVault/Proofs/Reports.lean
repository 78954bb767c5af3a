-- The law of reports: whatever the ledger answers, a call sends the batches of its
-- plan in order and up to the first refusal, and what it reports as confirmed is
-- what the ledger took.
import YieldVault.Proofs.Courses
import YieldVault.Proofs.Payout
import YieldVault.Proofs.Questions

namespace YieldVault

open Dialogue (Runs)

/-! ## Refusals -/

namespace ScopedPlan

/-- Whether the planned batch of some place creates the wrapped account. -/
def WrapsAt (plan : ScopedPlan) (k : Nat) : Prop :=
  plan.setup.isSome ∧ plan.scope.isSome ∧ k = plan.before.length

instance (plan : ScopedPlan) (k : Nat) : Decidable (plan.WrapsAt k) := by
  unfold WrapsAt
  infer_instance

/-- What the refusal of a planned batch is: the ledger's own, or a failure of the wrapped account
that the batch was to create. -/
def refusal (plan : ScopedPlan) (k : Nat) (r : Rejection) : Error :=
  if plan.WrapsAt k then plan.setupFailure (.batchRejected k r.code r.reason)
  else .batchRejected k r.code r.reason

variable {plan : ScopedPlan}

/-- Refused batches other than the setup are reported as the ledger refused them. -/
theorem refusal_of_ne {k : Nat} {r : Rejection}
    (h : plan.setup.isSome → k ≠ plan.before.length) :
    plan.refusal k r = .batchRejected k r.code r.reason := by
  rw [refusal, if_neg]
  rintro ⟨hsetup, -, hk⟩
  exact h hsetup hk

theorem refusal_of_setup {r : Rejection} (h : plan.setup.isSome) :
    plan.refusal plan.before.length r =
      plan.setupFailure (.batchRejected plan.before.length r.code r.reason) := by
  unfold refusal setupFailure
  split
  · rfl
  · rename_i hwraps
    cases hscope : plan.scope with
    | none => rfl
    | some scope => exact absurd ⟨h, by simp [hscope], rfl⟩ hwraps

end ScopedPlan

/-- The confirmations that a call reports, whether it went well or not. -/
def reported : ExecutionResult → List Confirmation
  | .ok confirmed => confirmed
  | .error e => e.confirmed

/-- What a call came to that sent batches of a plan, and maybe released the wrapped account. -/
structure Reports (plan : ScopedPlan) (sent release : List Sent) (result : ExecutionResult) :
    Prop where
  /-- What was sent is a first part of the planned batches, in their order. -/
  ordered : sent.map (·.batch) <+: plan.planned
  /-- A batch with another behind it was taken. -/
  taken : ∀ k, k + 1 < sent.length → ∃ batch signature, sent[k]? = some ⟨batch, .ok signature⟩
  /-- Where none was refused, all were sent. -/
  complete : (∀ s ∈ sent, s.Taken) → sent.map (·.batch) = plan.planned
  /-- All that may follow is the closing of the wrapped account. -/
  released : release.map (·.batch) <+: plan.closing
  /-- The batches that were taken are reported, and no others. -/
  confirmed : reported result = Sent.confirmations (sent ++ release)
  /-- A refused batch is the failure of the call. -/
  refused : ∀ k batch r, sent[k]? = some ⟨batch, .error r⟩ →
    ∃ failure, result = .error failure ∧ failure.source = plan.refusal k r

theorem Reports.of_delivered {plan : ScopedPlan} {sent release : List Sent}
    {result : ExecutionResult} (hdelivered : Delivered plan.planned sent)
    (hreleased : release.map (·.batch) <+: plan.closing)
    (hconfirmed : reported result = Sent.confirmations (sent ++ release))
    (hrefused : ∀ k batch r, sent[k]? = some ⟨batch, .error r⟩ →
      ∃ failure, result = .error failure ∧ failure.source = plan.refusal k r) :
    Reports plan sent release result where
  ordered := hdelivered.isPrefix
  taken _ := hdelivered.taken_of_lt
  complete hall :=
    have hok : Sent.verdict 0 sent = .ok () := Sent.verdict_eq_ok_iff.2 hall
    hdelivered.eq_of_verdict_ok hok
  released := hreleased
  confirmed := hconfirmed
  refused := hrefused

namespace ScopedPlan

variable {plan : ScopedPlan} {encoder : Encoder} {sent first second third release : List Sent}
  {e : Error}

/-- A refusal ahead of the setup ends the call. -/
theorem reports_of_refused_before (hfirst : Delivered plan.before sent)
    (hrefused : Sent.verdict 0 sent = .error e) :
    Reports plan sent [] (.error (.after (Sent.confirmations sent) e)) := by
  refine .of_delivered ?_ List.nil_prefix ?_ ?_
  · rw [planned, List.append_assoc]
    exact hfirst.extend hrefused
  · rw [List.append_nil]
    rfl
  · intro k batch r hk
    refine ⟨_, rfl, ?_⟩
    have hle := hfirst.length_le
    obtain ⟨hlt, -⟩ := List.getElem?_eq_some_iff.1 hk
    rw [refusal_of_ne fun _ => by omega]
    have hverdict : Sent.verdict 0 sent = _ := hfirst.verdict_of_refused hk
    rw [hrefused, Nat.zero_add] at hverdict
    cases hverdict
    rfl

/-- A refused setup ends the call too, and is a failure of the account that it was to wrap. -/
theorem reports_of_refused_setup (hfirst : Delivered plan.before first)
    (hfirstok : Sent.verdict 0 first = .ok ()) (hsecond : Delivered plan.setup.toList second)
    (hrefused : Sent.verdict first.length second = .error e) :
    Reports plan (first ++ second) []
      (.error (.after (Sent.confirmations (first ++ second)) (plan.setupFailure e))) := by
  refine .of_delivered ?_ List.nil_prefix ?_ ?_
  · have hverdict : Sent.verdict 0 (first ++ second) = .error e := by
      rw [Sent.verdict_append, hfirstok, Nat.zero_add]
      exact hrefused
    exact (hfirst.append hfirstok hsecond).extend hverdict
  · rw [List.append_nil]
    rfl
  · intro k batch r hk
    refine ⟨_, rfl, ?_⟩
    have hlength := hfirst.length_eq_of_verdict_ok hfirstok
    have hle : first.length ≤ k := Sent.length_le_of_refused hfirstok hk
    rw [List.getElem?_append_right hle] at hk
    have hverdict : Sent.verdict first.length second = _ := hsecond.verdict_of_refused hk
    have hsecondlen := hsecond.length_le
    obtain ⟨hlt, -⟩ := List.getElem?_eq_some_iff.1 hk
    cases hsetup : plan.setup with
    | none =>
      rw [hsetup] at hsecondlen
      simp only [Option.toList_none, List.length_nil] at hsecondlen
      omega
    | some setup =>
      rw [hsetup] at hsecondlen
      simp only [Option.toList_some, List.length_singleton] at hsecondlen
      have hk : k = plan.before.length := by omega
      rw [hrefused, show first.length + (k - first.length) = k by omega, hk] at hverdict
      cases hverdict
      rw [hk, refusal_of_setup (by simp [hsetup])]
      rfl

/-- Once the setup was taken, the main batches follow, and the closing of the wrapped account
whatever came of them. -/
theorem reports_of_main {cleanup : Option Error} (hfirst : Delivered plan.before first)
    (hfirstok : Sent.verdict 0 first = .ok ()) (hsecond : Delivered plan.setup.toList second)
    (hsecondok : Sent.verdict first.length second = .ok ()) (hthird : Delivered plan.main third)
    (hreleased : release.map (·.batch) <+: plan.closing) :
    Reports plan (first ++ second ++ third) release
      (conclude (Sent.confirmations (first ++ second ++ third ++ release))
        (Sent.verdict (first ++ second).length third) cleanup) := by
  have hopened : Sent.verdict 0 (first ++ second) = .ok () := by
    rw [Sent.verdict_append, hfirstok, Nat.zero_add]
    exact hsecondok
  refine .of_delivered ((hfirst.append hfirstok hsecond).append hopened hthird) hreleased ?_ ?_
  · cases Sent.verdict (first ++ second).length third with
    | ok => cases cleanup <;> rfl
    | error e => rfl
  · intro k batch r hk
    have hle : (first ++ second).length ≤ k := Sent.length_le_of_refused hopened hk
    rw [List.getElem?_append_right hle] at hk
    rw [hthird.verdict_of_refused hk,
      show (first ++ second).length + (k - (first ++ second).length) = k by omega]
    refine ⟨_, rfl, ?_⟩
    rw [refusal_of_ne]
    intro hsetup
    have hlength := hfirst.length_eq_of_verdict_ok hfirstok
    have hone := hsecond.length_eq_of_verdict_ok hsecondok
    obtain ⟨setup, hsetup⟩ := Option.isSome_iff_exists.1 hsetup
    rw [List.length_append, hone, hsetup, hlength, Option.toList_some, List.length_singleton] at hle
    omega

/-- Every course of a plan is reported as it was. -/
theorem Course.reports {result : ExecutionResult} (h : plan.Course sent release result) :
    Reports plan sent release result := by
  cases h with
  | refusedBefore hfirst hrefused => exact reports_of_refused_before hfirst hrefused
  | refusedSetup hfirst hfirstok hsecond hrefused =>
    exact reports_of_refused_setup hfirst hfirstok hsecond hrefused
  | main hfirst hfirstok hsecond hsecondok hthird hrelease =>
    exact reports_of_main hfirst hfirstok hsecond hsecondok hthird hrelease.isPrefix

theorem reports_of_runs_send {exchanges : List Exchange} {result : ExecutionResult}
    (hready : ∀ batch ∈ plan.planned ++ plan.closing, batch.Sendable encoder plan.keyring)
    (hrun : Runs (plan.send encoder) exchanges result) :
    ∃ sent release, Reports plan sent release result ∧
      List.Forall₂ (Sent.Reached encoder plan.keyring) (sent ++ release) exchanges := by
  obtain ⟨sent, release, hcourse, hreached⟩ := course_of_runs_send hready hrun
  exact ⟨sent, release, hcourse.reports, hreached⟩

end ScopedPlan

/-! ## Calls -/

/-- What can be asked of a client that sends batches. -/
inductive VaultCall
  | rebalance (weights : Option Weights)
  | deposit (pair : Keypair) (amount : UInt64) (source : Option Key)
  | withdraw (pair : Keypair) (amount : UInt64)

namespace VaultCall

/-- Carries a call out. -/
def perform (client : Client) : VaultCall → Dialogue (ExecutionResult × Client)
  | rebalance weights => client.rebalance weights
  | deposit pair amount source => client.deposit pair amount source
  | withdraw pair amount => client.withdraw pair amount

/-- The plan of a call. That of a rebalance has no setup, and nothing to close. -/
def plan (client : Client) : VaultCall → Call ScopedPlan
  | rebalance weights => do
    let batches ← client.planRebalance weights
    pure ⟨batches, none, [], none⟩
  | deposit pair amount source => client.planDeposit pair amount source
  | withdraw pair amount => client.planWithdraw pair amount

variable {client : Client}

theorem send_of_batches (encoder : Encoder) (batches : List Batch) :
    (⟨batches, none, [], none⟩ : ScopedPlan).send encoder =
      Batch.sendAll encoder [] batches .start >>= fun
        | (.ok (), p) => .done (.ok p.confirmed)
        | (.error e, p) => .done (.error (.after p.confirmed e)) := by
  unfold ScopedPlan.send
  congr 1
  funext result
  obtain ⟨outcome, p⟩ := result
  cases outcome <;> rfl

theorem executeRebalance_eq (weights : Option Weights) :
    client.executeRebalance weights = client.execute ((rebalance weights).plan client) := by
  unfold Client.executeRebalance Client.execute plan
  rw [ExceptT.run_bind, bind_assoc]
  congr 1
  funext planned
  cases planned with
  | error e => rfl
  | ok batches => exact (send_of_batches client.encoder batches).symm

/-- Every call plans, sends its plan, and reads the vault anew. -/
theorem perform_eq (call : VaultCall) :
    call.perform client = client.execute (call.plan client) >>= client.finish := by
  cases call with
  | rebalance weights =>
    rw [← executeRebalance_eq]
    rfl
  | deposit => rfl
  | withdraw => rfl

/-- The activities that a call needs, as far as its client can tell before it asks: a withdrawal
reconciles only where the reserve falls short of it. -/
def needs (client : Client) : VaultCall → List Activity
  | rebalance _ => [.refreshes, .reconciles]
  | deposit .. => [.transfers, .refreshes]
  | withdraw _ amount =>
    [.transfers, .refreshes] ++ if client.record.unallocated < amount then [.reconciles] else []

/-- Whatever the ledger answers, a plan asks for the payer's own accounts, for what keeps a token
account, and for a run of the commit; and it fails of a halt only before it has asked anything, for
an activity that its call needs, unless an answer was that failure. -/
theorem heeds_plan (client : Client) (call : VaultCall) :
    client.Heeds (client.Refuses (call.needs client)) (call.plan client) := by
  cases call with
  | rebalance weights => exact (Client.heeds_planRebalance weights).bind fun _ => Call.keeps_pure _
  | deposit pair amount source => exact Client.heeds_planDeposit pair amount source
  | withdraw pair amount =>
    apply Client.heeds_planWithdraw pair amount
    · intro activity ha h
      exact ⟨activity, List.mem_append_left _ ha, h, rfl⟩
    · intro hshort h
      exact ⟨.reconciles, by simp [needs, hshort], h, rfl⟩

theorem quiet_plan (call : VaultCall) : (call.plan client).Quiet :=
  (call.heeds_plan client).quiet fun _ h => h.submits_eq

theorem laidOut_of_runs_plan {call : VaultCall} {exchanges : List Exchange} {planned : ScopedPlan}
    (h : Call.Runs (call.plan client) exchanges (.ok planned)) : client.LaidOut planned := by
  cases call with
  | rebalance weights =>
    obtain ⟨batches, first, rest, -, hfirst, hrest⟩ := Call.runs_bind_ok_iff.1 h
    obtain ⟨-, hplanned⟩ := Call.runs_pure_iff.1 hrest
    cases hplanned
    exact Client.laidOut_of_runs_planRebalance hfirst
  | deposit pair amount source => exact Client.laidOut_of_runs_planDeposit h
  | withdraw pair amount => exact Client.laidOut_of_runs_planWithdraw h

end VaultCall

/-! ## The end of a call -/

namespace Client

variable {client after : Client} {exchanges : List Exchange} {outcome result : ExecutionResult}

theorem quiet_load (vault : Key) (version : Nat) : (VaultRecord.load vault version).Quiet := by
  apply (VaultRecord.keeps_load vault version).quiet
  rintro _ ⟨address, rfl⟩
  rfl

theorem quiet_reload (client : Client) : client.reload.Quiet := by
  refine Dialogue.Quiet.bind (quiet_load _ _) fun loaded => ?_
  cases loaded <;> exact trivial

/-- What a call comes to once the vault was read anew, or could not be. -/
def ending : ExecutionResult → Except Error Unit → ExecutionResult
  | .ok confirmed, .error e => .error (.after confirmed e)
  | outcome, _ => outcome

theorem runs_reload_of_finish (h : Runs (client.finish outcome) exchanges (result, after)) :
    ∃ reloaded, Runs client.reload exchanges (reloaded, after) ∧ result = ending outcome reloaded := by
  obtain ⟨⟨reloaded, client'⟩, first, rest, rfl, hreload, hrest⟩ := Dialogue.runs_bind_iff.1 h
  have hend : rest = [] ∧ (result, after) = (ending outcome reloaded, client') := by
    cases outcome <;> cases reloaded <;> exact Dialogue.runs_done_iff.1 hrest
  obtain ⟨rfl, hresult⟩ := hend
  cases hresult
  rw [List.append_nil]
  exact ⟨reloaded, hreload, rfl⟩

/-- Reading the vault anew sends nothing, keeps what was confirmed, and hides no failure. -/
theorem reported_of_runs_finish (h : Runs (client.finish outcome) exchanges (result, after)) :
    submissions exchanges = [] ∧ reported result = reported outcome ∧
      ∀ failure, outcome = .error failure → result = .error failure := by
  obtain ⟨reloaded, hreload, rfl⟩ := runs_reload_of_finish h
  refine ⟨(quiet_reload client).submissions_eq_nil hreload, ?_, ?_⟩
  · cases outcome <;> cases reloaded <;> rfl
  · rintro failure rfl
    rfl

end Client

/-! ## The law -/

/-- Batches that reached the ledger are submissions, and nothing else is among their exchanges. -/
theorem submissions_of_reached {encoder : Encoder} {keyring : List Keypair} {sent : List Sent}
    {exchanges : List Exchange} (h : List.Forall₂ (Sent.Reached encoder keyring) sent exchanges) :
    submissions exchanges = exchanges := by
  induction h with
  | nil => rfl
  | cons hreached _ ih =>
    obtain ⟨instructions, signers, -, rfl⟩ := hreached
    rw [submissions, List.filter_cons_of_pos rfl]
    exact congrArg _ ih

/-- Whether a call submits a batch of its plan by a question. -/
def VaultCall.Sends (client : Client) (call : VaultCall) (request : Request) : Prop :=
  ∃ asked plan batch instructions signers, Call.Runs (call.plan client) asked (.ok plan) ∧
    batch ∈ plan.planned ++ plan.closing ∧
    batch.ready client.encoder plan.keyring = .ok (instructions, signers) ∧
    request = .submit instructions signers

/-- Before it reads the vault anew, a call asks what its plan asks, and submits the plan's batches. -/
theorem VaultCall.asking_or_sends {client : Client} {call : VaultCall} {executed : List Exchange}
    {outcome : ExecutionResult}
    (hrun : Dialogue.Runs (client.execute (call.plan client)) executed outcome) :
    ∀ exchange ∈ executed, client.Asking exchange.1 ∨ call.Sends client exchange.1 := by
  obtain ⟨planned, asked, later, rfl, hasked, hlater⟩ := Dialogue.runs_bind_iff.1 hrun
  intro exchange hmem
  rcases List.mem_append.1 hmem with hmem | hmem
  · exact .inl ((call.heeds_plan client).asks hasked exchange hmem)
  · cases planned with
    | error e =>
      obtain ⟨rfl, -⟩ := Dialogue.runs_done_iff.1 hlater
      cases hmem
    | ok plan =>
      have hlaid := VaultCall.laidOut_of_runs_plan hasked
      obtain ⟨batch, hbatch, instructions, signers, hready, hsubmit⟩ :=
        ScopedPlan.exists_batch_of_runs_send hlaid.sendable hlater exchange hmem
      exact .inr ⟨asked, plan, batch, instructions, signers, hasked, hbatch, hready, hsubmit⟩

/-- A call before it reads the vault anew either could not be planned, and sent nothing, or sent its
plan. -/
theorem VaultCall.course_of_runs_perform {client after : Client} {call : VaultCall}
    {exchanges : List Exchange} {result : ExecutionResult}
    (hrun : Runs (call.perform client) exchanges (result, after)) :
    ∃ executed closed outcome, exchanges = executed ++ closed ∧
      Runs (client.execute (call.plan client)) executed outcome ∧
      Runs (client.finish outcome) closed (result, after) ∧ submissions closed = [] ∧
      ((∃ e, Call.Runs (call.plan client) executed (.error e) ∧ submissions executed = [] ∧
        outcome = .error (.early e)) ∨
      ∃ plan asked later sent release, executed = asked ++ later ∧
        Call.Runs (call.plan client) asked (.ok plan) ∧ plan.Course sent release outcome ∧
        List.Forall₂ (Sent.Reached client.encoder plan.keyring) (sent ++ release)
          (submissions executed)) := by
  rw [VaultCall.perform_eq] at hrun
  obtain ⟨outcome, executed, closed, rfl, hexecuted, hclosed⟩ := Dialogue.runs_bind_iff.1 hrun
  refine ⟨executed, closed, outcome, rfl, hexecuted, hclosed,
    (Client.reported_of_runs_finish hclosed).1, ?_⟩
  obtain ⟨planned, asked, later, rfl, hasked, hlater⟩ := Dialogue.runs_bind_iff.1 hexecuted
  have hquiet := call.quiet_plan.submissions_eq_nil hasked
  cases planned with
  | error e =>
    obtain ⟨rfl, rfl⟩ := Dialogue.runs_done_iff.1 hlater
    rw [List.append_nil]
    exact .inl ⟨e, hasked, hquiet, rfl⟩
  | ok plan =>
    have hlaid := VaultCall.laidOut_of_runs_plan hasked
    obtain ⟨sent, release, hcourse, hreached⟩ :=
      ScopedPlan.course_of_runs_send hlaid.sendable hlater
    refine .inr ⟨plan, asked, later, sent, release, rfl, hasked, hcourse, ?_⟩
    rwa [submissions_append, hquiet, List.nil_append, submissions_of_reached hreached]

/-- Whatever the ledger answers, a call either could not be planned, and sent nothing, or sent the
batches of its plan: in order, each after the one before it was taken, none after one that was
refused, and at last maybe the closing of the wrapped account. It reports as confirmed exactly the
batches that were taken, each with its place, and a refused one by its place and by the ledger's own
reason. -/
theorem a_call_reports_what_the_ledger_took {client after : Client} {call : VaultCall}
    {exchanges : List Exchange} {result : ExecutionResult}
    (hrun : Runs (call.perform client) exchanges (result, after)) :
    (∃ e asked later, exchanges = asked ++ later ∧
      Call.Runs (call.plan client) asked (.error e) ∧ submissions exchanges = [] ∧
      result = .error (.early e)) ∨
    ∃ plan asked later sent release, exchanges = asked ++ later ∧
      Call.Runs (call.plan client) asked (.ok plan) ∧
      plan.closing = (plan.scope.map fun scope => ScopedPlan.releasing scope.1).toList ∧
      List.Forall₂ (Sent.Reached client.encoder plan.keyring) (sent ++ release)
        (submissions exchanges) ∧
      Reports plan sent release result := by
  rw [VaultCall.perform_eq] at hrun
  obtain ⟨outcome, executed, closed, rfl, hexecuted, hclosed⟩ := Dialogue.runs_bind_iff.1 hrun
  obtain ⟨hclosedquiet, hreported, hfailed⟩ := Client.reported_of_runs_finish hclosed
  obtain ⟨planned, asked, later, rfl, hasked, hlater⟩ := Dialogue.runs_bind_iff.1 hexecuted
  have haskedquiet := call.quiet_plan.submissions_eq_nil hasked
  cases planned with
  | error e =>
    obtain ⟨rfl, rfl⟩ := Dialogue.runs_done_iff.1 hlater
    refine .inl ⟨e, asked, closed, by simp, hasked, ?_, hfailed _ rfl⟩
    simp [haskedquiet, hclosedquiet]
  | ok plan =>
    have hlaid := VaultCall.laidOut_of_runs_plan hasked
    obtain ⟨sent, release, hreports, hreached⟩ :=
      ScopedPlan.reports_of_runs_send hlaid.sendable hlater
    refine .inr ⟨plan, asked, later ++ closed, sent, release, by simp, hasked, hlaid.closing_eq,
      ?_, ?_⟩
    · simpa [haskedquiet, hclosedquiet, submissions_of_reached hreached] using hreached
    · refine { hreports with confirmed := hreported.trans hreports.confirmed, refused := ?_ }
      intro k batch r hk
      obtain ⟨failure, rfl, hsource⟩ := hreports.refused k batch r hk
      exact ⟨failure, hfailed failure rfl, hsource⟩

namespace OneVenue

/-- Why the ledger does not pay out more than the reserve holds. -/
def insufficient : Rejection := ⟨some 6010, "insufficient reserve"⟩

def signature : Signature := ⟨[]⟩

/-- The withdrawal from a vault that has grown: its reconcile is taken, its main batch is refused,
and then the vault cannot be read. -/
def refusedExchanges : List Exchange :=
  exchanges 1100 ++
  [⟨.submit [handle.refresh client.encoder.keys, handle.reconcile client.encoder.keys 500] [],
    .ok signature⟩,
   ⟨.submit [handle.refresh client.encoder.keys, .consolidate client.encoder.keys,
      .withdraw client.encoder.keys client.payer client.shareAccount client.reserveAccount 500] [],
    .error insufficient⟩,
   ⟨.account client.vault, .error (.transport "closed")⟩]

def refusedResult : ExecutionResult :=
  .error ⟨[⟨0, .reconcile, signature⟩],
    .batchRejected 1 insufficient.code insufficient.reason, none⟩

theorem runs_refused_withdrawal :
    Runs ((VaultCall.withdraw pair 500).perform client) refusedExchanges
      (refusedResult, client) := by
  have hplan := runs_planWithdraw freeingSteps_of_a_grown_total
  have hsend : Runs (plan.send client.encoder) ((refusedExchanges.drop 2).take 2) refusedResult :=
    .ask (.ask (.done _))
  have hfinish : Runs (client.finish refusedResult) (refusedExchanges.drop 4)
      (refusedResult, client) :=
    .ask (.done _)
  rw [VaultCall.perform_eq]
  exact Dialogue.runs_bind_iff.2 ⟨refusedResult, refusedExchanges.take 4, _, rfl,
    Dialogue.runs_bind_iff.2 ⟨.ok plan, exchanges 1100, _, rfl, hplan, hsend⟩, hfinish⟩

theorem a_refused_withdrawal_reports_its_reconcile :
    Runs ((VaultCall.withdraw pair 500).perform client) refusedExchanges (refusedResult, client) ∧
    ((∃ e asked later, refusedExchanges = asked ++ later ∧
      Call.Runs ((VaultCall.withdraw pair 500).plan client) asked (.error e) ∧
      submissions refusedExchanges = [] ∧ refusedResult = .error (.early e)) ∨
    ∃ plan asked later sent release, refusedExchanges = asked ++ later ∧
      Call.Runs ((VaultCall.withdraw pair 500).plan client) asked (.ok plan) ∧
      plan.closing = (plan.scope.map fun scope => ScopedPlan.releasing scope.1).toList ∧
      List.Forall₂ (Sent.Reached client.encoder plan.keyring) (sent ++ release)
        (submissions refusedExchanges) ∧
      Reports plan sent release refusedResult) :=
  ⟨runs_refused_withdrawal, a_call_reports_what_the_ledger_took runs_refused_withdrawal⟩

end OneVenue

end YieldVault
