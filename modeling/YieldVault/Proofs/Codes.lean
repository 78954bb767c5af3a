-- The law of codes: a call that the ledger refuses, in a simulation or in a batch, fails
-- with the code that the vault's program gave for it, and so does the answer of the
-- service. Only the setup that is to wrap the native asset is told without its code.
import YieldVault.Json.Tree
import YieldVault.Proofs.Halts
import YieldVault.Proofs.Lifecycles
import YieldVault.Service.App

namespace YieldVault

open Dialogue (Runs)

/-! ## Refused simulations -/

/-- Whether an exchange is of a simulation that was refused, and what a call fails of then. -/
def Reverted (e : Error) : Exchange → Prop
  | ⟨.simulate .., .ok simulation⟩ =>
    ∃ r, simulation.rejection = some r ∧ e = .simulationReverted r.code r.reason simulation.logs
  | _ => False

namespace Call

variable {α β : Type}

/-- Whether a call fails of a simulation that was refused, wherever it ran one. -/
structure Stops (call : Call α) : Prop where
  fails : ∀ {exchanges outcome}, Runs call exchanges outcome →
    ∀ exchange ∈ exchanges, ∀ e, Reverted e exchange → outcome = .error e

theorem stops_lift (result : Except Error α) : Stops (liftM result : Call α) where
  fails hrun exchange hmem := by
    obtain ⟨rfl, -⟩ := runs_lift_iff.1 hrun
    cases hmem

theorem stops_pure (a : α) : Stops (pure a : Call α) := stops_lift (.ok a)

theorem stops_account (address : Key) : Stops (account address) where
  fails hrun exchange hmem e he := by
    rw [runs_account_iff.1 hrun] at hmem
    rw [List.mem_singleton.1 hmem] at he
    cases he

theorem stops_rent (width : Nat) : Stops (rent width) where
  fails hrun exchange hmem e he := by
    rw [runs_rent_iff.1 hrun] at hmem
    rw [List.mem_singleton.1 hmem] at he
    cases he

/-- A part that went well was refused no simulation, so what follows it has to answer for one. -/
theorem Stops.bind {call : Call α} {f : α → Call β} (hcall : call.Stops) (hf : ∀ a, (f a).Stops) :
    (call >>= f).Stops := by
  refine ⟨fun hrun exchange hmem e he => ?_⟩
  rcases runs_bind_iff.1 hrun with ⟨a, first, rest, rfl, hfirst, hrest⟩ | ⟨e', hfailed, rfl⟩
  · rcases List.mem_append.1 hmem with hmem | hmem
    · cases hcall.fails hfirst exchange hmem e he
    · exact (hf a).fails hrest exchange hmem e he
  · cases hcall.fails hfailed exchange hmem e he
    rfl

/-- What follows a part without questions need only be looked at where that part goes well. -/
theorem stops_lift_bind {result : Except Error α} {f : α → Call β}
    (hf : ∀ a, result = .ok a → (f a).Stops) : (liftM result >>= f : Call β).Stops := by
  cases result with
  | error e => exact stops_lift (.error e)
  | ok a => exact hf a rfl

/-- A simulation is looked at for a refusal before anything else is made of it. -/
theorem stops_simulate {instructions : List Instruction} {accounts : List Key}
    {f : Simulation → Call α} (hf : ∀ accepted, (f accepted).Stops) :
    (simulate instructions accounts >>= fun simulation =>
      liftM simulation.accepted >>= f).Stops := by
  refine ⟨fun hrun exchange hmem e he => ?_⟩
  rcases runs_bind_iff.1 hrun with ⟨simulation, first, rest, rfl, hfirst, hrest⟩ | ⟨e', hfailed, -⟩
  · rw [runs_simulate_iff.1 hfirst] at hmem
    rcases List.mem_append.1 hmem with hmem | hmem
    · rw [List.mem_singleton.1 hmem] at he
      obtain ⟨r, hr, rfl⟩ := he
      have haccepted : simulation.accepted =
          .error (.simulationReverted r.code r.reason simulation.logs) := by
        unfold Simulation.accepted
        rw [hr]
      rw [haccepted] at hrest
      obtain ⟨-, rfl⟩ := runs_throw_iff.1 hrest
      rfl
    · exact (stops_lift_bind fun accepted _ => hf accepted).fails hrest exchange hmem e he
  · rw [runs_simulate_iff.1 hfailed] at hmem
    rw [List.mem_singleton.1 hmem] at he
    cases he

end Call

namespace Client

variable {client : Client}

theorem stops_project (weights : Option Weights) : (client.project weights).Stops := by
  refine Call.stops_lift_bind fun instructions _ => Call.stops_simulate fun accepted => ?_
  split
  · exact Call.stops_lift_bind fun account _ => Call.stops_pure _
  · exact Call.stops_lift (.error _)

theorem stops_isPresent (address : Key) : (isPresent address).Stops :=
  (Call.stops_account address).bind fun _ => Call.stops_pure _

theorem stops_wrapped? (pair : Keypair) (amount : UInt64) : (client.wrapped? pair amount).Stops := by
  unfold wrapped?
  split
  · refine (Call.stops_rent _).bind fun rent => ?_
    exact Call.stops_lift_bind fun w _ => Call.stops_pure _
  · exact Call.stops_pure _

theorem stops_destination (wrapped : Option WrappedAccount) :
    (client.destination wrapped).Stops := by
  cases wrapped with
  | none =>
    refine (stops_isPresent _).bind fun present => ?_
    split <;> exact Call.stops_pure _
  | some w => exact Call.stops_pure _

theorem stops_planRebalance (weights : Option Weights) : (client.planRebalance weights).Stops := by
  refine Call.stops_lift_bind fun _ _ => Call.stops_lift_bind fun _ _ => ?_
  refine (stops_project weights).bind fun projection => ?_
  exact Call.stops_lift_bind fun movements _ => Call.stops_lift _

theorem stops_planDeposit (pair : Keypair) (amount : UInt64) (source : Option Key) :
    (client.planDeposit pair amount source).Stops := by
  unfold planDeposit
  split
  · exact Call.stops_lift_bind fun _ hok => nomatch hok
  · refine Call.stops_lift_bind fun _ _ => (stops_isPresent _).bind fun present => ?_
    refine (stops_wrapped? pair amount).bind fun wrapped => ?_
    refine Call.stops_lift_bind fun main _ => Call.stops_lift_bind fun plan _ => ?_
    exact Call.stops_lift_bind fun shares _ => Call.stops_pure _

theorem stops_planFreeing (amount : UInt64) : (client.planFreeing amount).Stops := by
  unfold planFreeing
  split
  · refine Call.stops_lift_bind fun _ _ => (stops_project none).bind fun projection => ?_
    exact Call.stops_lift_bind fun steps _ => Call.stops_lift _
  · exact Call.stops_pure _

theorem stops_planWithdraw (pair : Keypair) (amount : UInt64) :
    (client.planWithdraw pair amount).Stops := by
  unfold planWithdraw
  split
  · exact Call.stops_lift_bind fun _ hok => nomatch hok
  · refine Call.stops_lift_bind fun _ _ => Call.stops_lift_bind fun shares _ => ?_
    refine (stops_planFreeing amount).bind fun before => (stops_wrapped? pair 0).bind fun w => ?_
    refine (stops_destination w).bind fun target => ?_
    exact Call.stops_lift_bind fun main _ => Call.stops_lift _

end Client

theorem VaultCall.stops_plan (client : Client) (call : VaultCall) : (call.plan client).Stops := by
  cases call with
  | rebalance weights => exact (Client.stops_planRebalance weights).bind fun _ => Call.stops_pure _
  | deposit pair amount source => exact Client.stops_planDeposit pair amount source
  | withdraw pair amount => exact Client.stops_planWithdraw pair amount

/-- A call that was refused a simulation fails of that, and of nothing else. -/
theorem VaultCall.failed_of_reverted {client : Client} {call : VaultCall} {executed : List Exchange}
    {outcome : ExecutionResult} (hrun : Runs (client.execute (call.plan client)) executed outcome) :
    ∀ exchange ∈ executed, ∀ e, Reverted e exchange → outcome = .error (.early e) := by
  obtain ⟨planned, asked, later, rfl, hasked, hlater⟩ := Dialogue.runs_bind_iff.1 hrun
  intro exchange hmem e he
  cases planned with
  | error e' =>
    obtain ⟨rfl, rfl⟩ := Dialogue.runs_done_iff.1 hlater
    rw [List.append_nil] at hmem
    cases (call.stops_plan client).fails hasked exchange hmem e he
    rfl
  | ok plan =>
    rcases List.mem_append.1 hmem with hmem | hmem
    · cases (call.stops_plan client).fails hasked exchange hmem e he
    · have hlaid := VaultCall.laidOut_of_runs_plan hasked
      obtain ⟨_, -, _, _, -, hsubmit⟩ :=
        ScopedPlan.exists_batch_of_runs_send hlaid.sendable hlater exchange hmem
      obtain ⟨request, reply⟩ := exchange
      cases hsubmit
      cases he

/-! ## The setup of a plan -/

theorem Client.isSome_of_runs_wrapped? {client : Client} {pair : Keypair} {amount : UInt64}
    {exchanges : List Exchange} {wrapped : Option WrappedAccount}
    (h : Call.Runs (client.wrapped? pair amount) exchanges (.ok wrapped)) :
    wrapped.isSome ↔ client.record.denomination = Key.nativeMint := by
  by_cases hnative : client.record.denomination = Key.nativeMint
  · obtain ⟨rent, w, -, -, rfl⟩ := (runs_wrapped?_iff hnative).1 h
    simp [hnative]
  · unfold wrapped? at h
    rw [if_neg hnative] at h
    obtain ⟨-, hnone⟩ := Call.runs_pure_iff.1 h
    cases hnone
    simp [hnative]

/-- What is laid out behind a refresh is a setup only where it was to be one. -/
theorem Batch.kind_ne_setup_of_behindRefresh {ceiling : Nat} {kind : BatchKind}
    {venues : List Venue} {operations : List Operation} {batches : List Batch}
    (hkind : kind ≠ .setup) (h : behindRefresh ceiling kind venues operations = .ok batches) :
    ∀ batch ∈ batches, batch.kind ≠ .setup := by
  intro batch hbatch
  rcases kind_of_behindRefresh h batch hbatch with hrefresh | hsame
  · simp [hrefresh]
  · rwa [hsame]

theorem Batch.kind_ne_setup_of_pack {ceiling : Nat} {refreshable : List Venue}
    {steps : List ReconcileStep} {batches : List Batch}
    (h : pack ceiling refreshable steps = .ok batches) :
    ∀ batch ∈ batches, batch.kind ≠ .setup := by
  intro batch hbatch
  simp [kind_of_pack h batch hbatch]

theorem Client.kind_ne_setup_of_rebalanceBatches {client : Client} {weights : Option Weights}
    {movements : List Movement} {batches : List Batch}
    (h : client.rebalanceBatches weights movements = .ok batches) :
    ∀ batch ∈ batches, batch.kind ≠ .setup := by
  unfold rebalanceBatches at h
  split at h
  · cases h
    simp
  · obtain ⟨commit, hcommit, hrest⟩ := Except.bind_eq_ok_iff.1 h
    obtain ⟨reconciles, hreconciles, hbatches⟩ := Except.bind_eq_ok_iff.1 hrest
    cases hbatches
    intro batch hbatch
    rcases List.mem_append.1 hbatch with hbatch | hbatch
    · exact Batch.kind_ne_setup_of_behindRefresh (by decide) hcommit batch hbatch
    · exact Batch.kind_ne_setup_of_pack hreconciles batch hbatch

namespace ScopedPlan

variable {plan : ScopedPlan} {wraps : Prop}

/-- Whether a plan has no setup but the one in its place, and that wraps an account on some
condition. -/
structure SetsUp (plan : ScopedPlan) (wraps : Prop) : Prop where
  setup : ∀ batch ∈ plan.setup, batch.kind = .setup
  others : ∀ batch ∈ plan.before ++ plan.main, batch.kind ≠ .setup
  scope : plan.setup.isSome → (plan.scope.isSome ↔ wraps)

theorem setsUp_of_layOut {ceiling : Nat} {before main : List Batch} {setup : List Operation}
    {wrapped : Option WrappedAccount} (hbefore : ∀ batch ∈ before, batch.kind ≠ .setup)
    (hmain : ∀ batch ∈ main, batch.kind ≠ .setup) (hwrapped : wrapped.isSome ↔ wraps)
    (h : layOut ceiling before setup main wrapped = .ok plan) : plan.SetsUp wraps := by
  obtain ⟨rfl, rfl, hscope, -⟩ := layOut_eq_ok h
  refine ⟨fun batch hbatch => by rw [eq_of_mem_setup h hbatch], fun batch hbatch => ?_, fun _ => ?_⟩
  · rcases List.mem_append.1 hbatch with hbatch | hbatch
    · exact hbefore batch hbatch
    · exact hmain batch hbatch
  · rw [hscope, Option.isSome_map]
    exact hwrapped

/-- The setup is known by its kind. -/
theorem SetsUp.kind_eq_iff (h : plan.SetsUp wraps) {k : Nat} {batch : Batch}
    (hat : plan.planned[k]? = some batch) :
    batch.kind = .setup ↔ plan.setup.isSome ∧ k = plan.before.length := by
  have hother : batch ∈ plan.before ++ plan.main → batch.kind ≠ .setup := h.others batch
  -- the place is ahead of the setup, that of the setup, or behind it
  rw [planned, List.append_assoc] at hat
  by_cases hlt : k < plan.before.length
  · rw [List.getElem?_append_left hlt] at hat
    have hmem := List.mem_append_left plan.main (List.mem_of_getElem? hat)
    simp only [hother hmem, false_iff]
    omega
  · rw [List.getElem?_append_right (by omega)] at hat
    cases hsetup : plan.setup with
    | none =>
      rw [hsetup, Option.toList_none, List.nil_append] at hat
      have hmem := List.mem_append_right plan.before (List.mem_of_getElem? hat)
      simp [hother hmem]
    | some setup =>
      rw [hsetup, Option.toList_some, List.singleton_append, List.getElem?_cons] at hat
      by_cases hk : k = plan.before.length
      · rw [if_pos (by omega)] at hat
        cases hat
        simp [hk, h.setup batch hsetup]
      · rw [if_neg (by omega)] at hat
        have hmem := List.mem_append_right plan.before (List.mem_of_getElem? hat)
        simp [hother hmem, hk]

/-- What wraps an account is the setup, where the plan has to wrap one. -/
theorem SetsUp.wrapsAt_iff (h : plan.SetsUp wraps) {k : Nat} {batch : Batch}
    (hat : plan.planned[k]? = some batch) :
    plan.WrapsAt k ↔ batch.kind = .setup ∧ wraps := by
  rw [h.kind_eq_iff hat]
  constructor
  · rintro ⟨hsetup, hscope, hk⟩
    exact ⟨⟨hsetup, hk⟩, (h.scope hsetup).1 hscope⟩
  · rintro ⟨⟨hsetup, hk⟩, hwraps⟩
    exact ⟨hsetup, (h.scope hsetup).2 hwraps, hk⟩

/-- A failure of the wrapped account does not carry the code that it came of. -/
theorem programCode_refusal (plan : ScopedPlan) (k : Nat) (r : Rejection) :
    (plan.refusal k r).programCode = if plan.WrapsAt k then none else r.code := by
  unfold refusal
  split
  · rename_i hwraps
    obtain ⟨scope, hscope⟩ := Option.isSome_iff_exists.1 hwraps.2.1
    rw [setupFailure, hscope]
    rfl
  · rfl

end ScopedPlan

/-- Every plan has its setup in its place, to wrap an account where the reserve is the native
asset. -/
theorem VaultCall.setsUp_of_runs_plan {client : Client} {call : VaultCall} {asked : List Exchange}
    {plan : ScopedPlan} (h : Call.Runs (call.plan client) asked (.ok plan)) :
    plan.SetsUp (client.record.denomination = Key.nativeMint) := by
  cases call with
  | rebalance weights =>
    obtain ⟨batches, first, rest, -, hfirst, hrest⟩ := Call.runs_bind_ok_iff.1 h
    obtain ⟨-, hplanned⟩ := Call.runs_pure_iff.1 hrest
    cases hplanned
    obtain ⟨-, -, projection, movements, -, -, hbatches⟩ := Client.runs_planRebalance_iff.1 hfirst
    refine ⟨by simp, fun batch hbatch => ?_, by simp⟩
    rw [List.append_nil] at hbatch
    exact Client.kind_ne_setup_of_rebalanceBatches hbatches batch hbatch
  | deposit pair amount source =>
    obtain ⟨-, -, stored, wrapped, main, -, funded, -, hfunded, hmain, hlaid, -⟩ :=
      Client.runs_planDeposit_iff.1 h
    apply ScopedPlan.setsUp_of_layOut _ _ (Client.isSome_of_runs_wrapped? hfunded) hlaid
    · simp
    · exact Batch.kind_ne_setup_of_behindRefresh (by decide) hmain
  | withdraw pair amount =>
    obtain ⟨-, -, shares, before, wrapped, account, setup, main, freed, funded, found, -, -,
      hfreed, hfunded, -, hmain, hlaid⟩ := Client.runs_planWithdraw_iff.1 h
    apply ScopedPlan.setsUp_of_layOut _ _ (Client.isSome_of_runs_wrapped? hfunded) hlaid
    · rcases Client.runs_planFreeing_iff.1 hfreed with ⟨-, -, _, _, -, -, hpack⟩ | ⟨-, -, rfl⟩
      · exact Batch.kind_ne_setup_of_pack hpack
      · simp
    · exact Batch.kind_ne_setup_of_behindRefresh (by decide) hmain

/-! ## Answers -/

/-- The member of an answer under some name, where the answer is an object. -/
def HttpResponse.member? (response : HttpResponse) (name : String) : Option Json :=
  match response.content with
  | .json (.object members) => Json.Tree.member? name members
  | _ => none

namespace Service

/-- The answer to a call that failed has the code of the program where the failure has it. -/
theorem member?_executed (failure : ExecutionError) (client : Client) :
    (executed (.error failure, client)).1.member? "program_code" =
      failure.source.programCode.map fun code => .nat code.toNat := by
  have hbody : ∀ status message code, HttpResponse.member? (.ofJson status
      (Answer.errorBody message code failure.source.programCode failure.confirmed failure.cleanup))
        "program_code" = failure.source.programCode.map fun code => .nat code.toNat := by
    intro status message code
    simp only [HttpResponse.member?, HttpResponse.ofJson, Answer.errorBody, Json.ofFields,
      Json.Tree.member?]
    cases failure.source.programCode <;> cases failure.cleanup <;>
      by_cases hnone : failure.confirmed.isEmpty <;> simp [hnone]
  exact hbody _ _ _

end Service

/-! ## The law -/

/-- Whether a call failed with a code of the vault's program, and its answer has that code. -/
structure TellsCode (result : ExecutionResult) (client : Client) (code : Option UInt32) : Prop where
  failed : ∃ failure, result = .error failure ∧ failure.source.programCode = code
  answered : (Service.executed (result, client)).1.member? "program_code" =
    code.map fun code => .nat code.toNat

theorem ExecutionError.tellsCode (failure : ExecutionError) (client : Client) :
    TellsCode (.error failure) client failure.source.programCode where
  failed := ⟨failure, rfl, rfl⟩
  answered := Service.member?_executed failure client

/-- The refusal of a batch of a plan is told with its code, unless it is of a setup that was to wrap
an account. -/
theorem Reports.programCode {plan : ScopedPlan} {sent release : List Sent}
    {outcome : ExecutionResult} {wraps : Prop} [Decidable wraps]
    (h : Reports plan sent release outcome) (hsetup : plan.SetsUp wraps) :
    ∀ s ∈ sent, ∀ r, s.reply = .error r →
      ∃ failure, outcome = .error failure ∧
        failure.source.programCode = if s.batch.kind = .setup ∧ wraps then none else r.code := by
  rintro ⟨batch, _⟩ hs r rfl
  obtain ⟨k, hk⟩ := List.getElem?_of_mem hs
  obtain ⟨failure, rfl, hsource⟩ := h.refused k batch r hk
  have hat : plan.planned[k]? = some batch := by
    obtain ⟨rest, hrest⟩ := h.ordered
    have hlt : k < (sent.map (·.batch)).length := by
      rw [List.length_map]
      exact (List.getElem?_eq_some_iff.1 hk).1
    rw [← hrest, List.getElem?_append_left hlt, List.getElem?_map, hk]
    rfl
  refine ⟨failure, rfl, ?_⟩
  rw [hsource, ScopedPlan.programCode_refusal]
  simp only [hsetup.wrapsAt_iff hat]

/-- Whatever the ledger answers, a call whose simulation it refuses fails of that with the code, and
so does a call of which it refuses a batch of the plan; and the answer to the call has the code too.
Only the setup of a vault of the native asset is told without it. -/
theorem a_refused_call_tells_the_code_of_the_program {client after : Client} {call : VaultCall}
    {exchanges : List Exchange} {result : ExecutionResult}
    (hrun : Runs (call.perform client) exchanges (result, after)) :
    (∀ instructions accounts simulation r,
      (⟨.simulate instructions accounts, .ok simulation⟩ : Exchange) ∈ exchanges →
      simulation.rejection = some r →
      result = .error (.early (.simulationReverted r.code r.reason simulation.logs)) ∧
      TellsCode result after r.code) ∧
    (submissions exchanges = [] ∨
      ∃ plan asked sent release, asked <+: exchanges ∧
        Call.Runs (call.plan client) asked (.ok plan) ∧
        sent.map (·.batch) <+: plan.planned ∧ release.map (·.batch) <+: plan.closing ∧
        List.Forall₂ (Sent.Reached client.encoder plan.keyring) (sent ++ release)
          (submissions exchanges) ∧
        ∀ s ∈ sent, ∀ r, s.reply = .error r →
          TellsCode result after
            (if s.batch.kind = .setup ∧ client.record.denomination = Key.nativeMint then none
              else r.code)) := by
  obtain ⟨executed, closed, outcome, rfl, hexecuted, hclosed, hquiet, hcourse⟩ :=
    VaultCall.course_of_runs_perform hrun
  obtain ⟨-, -, hkept⟩ := Client.reported_of_runs_finish hclosed
  refine ⟨fun instructions accounts simulation r hmem hr => ?_, ?_⟩
  · have hreverted : Reverted (.simulationReverted r.code r.reason simulation.logs)
        ⟨.simulate instructions accounts, .ok simulation⟩ := ⟨r, hr, rfl⟩
    rcases List.mem_append.1 hmem with hmem | hmem
    · have houtcome := VaultCall.failed_of_reverted hexecuted _ hmem _ hreverted
      rw [hkept _ houtcome]
      exact ⟨rfl, ExecutionError.tellsCode _ after⟩
    · obtain ⟨address, haddress⟩ := Client.asks_of_runs_finish hclosed _ hmem
      cases haddress
  · rw [submissions_append, hquiet, List.append_nil]
    rcases hcourse with ⟨e, -, hnone, -⟩ |
      ⟨plan, asked, later, sent, release, rfl, hplan, hcourse, hreached⟩
    · exact .inl hnone
    · have hreports := hcourse.reports
      refine .inr ⟨plan, asked, sent, release, by simp [List.append_assoc], hplan,
        hreports.ordered, hreports.released, hreached, fun s hs r hr => ?_⟩
      obtain ⟨failure, hfailed, hcode⟩ :=
        hreports.programCode (VaultCall.setsUp_of_runs_plan hplan) s hs r hr
      rw [hkept _ hfailed, ← hcode]
      exact failure.tellsCode after

namespace OneVenue

/-- The ledger refuses to pay out, and the withdrawal is answered with the reason's code. -/
theorem a_refused_withdrawal_tells_its_code :
    Runs ((VaultCall.withdraw pair 500).perform client) refusedExchanges (refusedResult, client) ∧
    (∀ instructions accounts simulation r,
      (⟨.simulate instructions accounts, .ok simulation⟩ : Exchange) ∈ refusedExchanges →
      simulation.rejection = some r →
      refusedResult = .error (.early (.simulationReverted r.code r.reason simulation.logs)) ∧
      TellsCode refusedResult client r.code) ∧
    (submissions refusedExchanges = [] ∨
      ∃ plan asked sent release, asked <+: refusedExchanges ∧
        Call.Runs ((VaultCall.withdraw pair 500).plan client) asked (.ok plan) ∧
        sent.map (·.batch) <+: plan.planned ∧ release.map (·.batch) <+: plan.closing ∧
        List.Forall₂ (Sent.Reached client.encoder plan.keyring) (sent ++ release)
          (submissions refusedExchanges) ∧
        ∀ s ∈ sent, ∀ r, s.reply = .error r →
          TellsCode refusedResult client
            (if s.batch.kind = .setup ∧ client.record.denomination = Key.nativeMint then none
              else r.code)) :=
  ⟨runs_refused_withdrawal, a_refused_call_tells_the_code_of_the_program runs_refused_withdrawal⟩

end OneVenue

/-! ## A setup that is refused -/

namespace NativeVault

open OneVenue (pair)

/-- Why the ledger does not create the account. -/
def rejected : Rejection := ⟨some 6000, "rejected"⟩

def unmade : Exchange :=
  ⟨.submit [.createAccount client.payer pair.address 2039780 Token.accountWidth Key.tokenProgram,
      .initializeHolding pair.address Key.nativeMint client.payer] [pair], .error rejected⟩

def unmadeResult : ExecutionResult :=
  .error (.early (wrapped.failure .create (.batchRejected 0 rejected.code rejected.reason)))

theorem runs_unmade_deposit :
    Runs ((VaultCall.deposit pair 500 none).perform client) (asked ++ [unmade] ++ reading)
      (unmadeResult, client) := by
  have hsend : Runs (plan.send client.encoder) [unmade] unmadeResult := .ask (.done _)
  have hfinish : Runs (client.finish unmadeResult) reading (unmadeResult, client) := .ask (.done _)
  rw [VaultCall.perform_eq]
  exact Dialogue.runs_bind_iff.2 ⟨unmadeResult, asked ++ [unmade], _, rfl,
    Dialogue.runs_bind_iff.2 ⟨.ok plan, asked, _, rfl, runs_planDeposit, hsend⟩, hfinish⟩

/-- The setup of a deposit is refused with a code, and neither the failure nor the answer has it. -/
theorem a_refused_setup_is_told_without_its_code :
    Runs ((VaultCall.deposit pair 500 none).perform client) (asked ++ [unmade] ++ reading)
      (unmadeResult, client) ∧
    submissions (asked ++ [unmade] ++ reading) = [unmade] ∧
    unmade.2 = .error rejected ∧ rejected.code = some 6000 ∧
    (Service.executed (unmadeResult, client)).1.member? "program_code" = none ∧
    ¬ TellsCode unmadeResult client rejected.code := by
  refine ⟨runs_unmade_deposit, rfl, rfl, rfl, rfl, ?_⟩
  rintro ⟨⟨failure, hfailed, hcode⟩, -⟩
  cases hfailed
  cases hcode

end NativeVault

end YieldVault
