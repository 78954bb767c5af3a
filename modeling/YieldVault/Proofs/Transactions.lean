-- The law of transactions: what a call hands to the ledger stays under the ceiling,
-- reconciles no venue before it has refreshed it, and touches only venues that are
-- enabled and that the client was wired to when it was opened.
import YieldVault.Proofs.Encodings
import YieldVault.Proofs.Sessions

namespace YieldVault

open Dialogue (Runs)

/-! ## Sound plans -/

namespace Client

variable {client : Client} {plan : ScopedPlan}

theorem sound_of_layOut {before main : List Batch} {setup : List Operation}
    {wrapped : Option WrappedAccount} (hbefore : ∀ batch ∈ before, batch.Sound client.ceiling)
    (hmain : ∀ batch ∈ main, batch.Sound client.ceiling)
    (h : ScopedPlan.layOut client.ceiling before setup main wrapped = .ok plan) :
    ∀ batch ∈ plan.planned ++ plan.closing, batch.Sound client.ceiling := by
  obtain ⟨rfl, rfl, -, -, hsingle⟩ := ScopedPlan.layOut_eq_ok h
  intro batch hbatch
  simp only [ScopedPlan.planned, List.mem_append] at hbatch
  rcases hbatch with ((hbatch | hbatch) | hbatch) | hbatch
  · exact hbefore batch hbatch
  · exact Batch.sound_of_single (hsingle batch (List.mem_append_left _ hbatch))
  · exact hmain batch hbatch
  · exact Batch.sound_of_single (hsingle batch (List.mem_append_right _ hbatch))

theorem sound_of_rebalanceBatches {weights : Option Weights} {movements : List Movement}
    {batches : List Batch} (h : client.rebalanceBatches weights movements = .ok batches) :
    ∀ batch ∈ batches, batch.Sound client.ceiling := by
  unfold rebalanceBatches at h
  by_cases hnone : movements.isEmpty
  · rw [if_pos hnone] at h
    cases h
    simp
  · rw [if_neg hnone] at h
    obtain ⟨commit, hcommit, hrest⟩ := Except.bind_eq_ok_iff.1 h
    obtain ⟨reconciles, hreconciles, hbatches⟩ := Except.bind_eq_ok_iff.1 hrest
    cases hbatches
    intro batch hbatch
    rcases List.mem_append.1 hbatch with hbatch | hbatch
    · exact Batch.sound_of_behindRefresh hcommit batch hbatch
    · exact Batch.sound_of_pack hreconciles batch hbatch

end Client

namespace VaultCall

variable {client : Client} {call : VaultCall}

theorem sound_of_runs_plan {asked : List Exchange} {plan : ScopedPlan}
    (h : Call.Runs (call.plan client) asked (.ok plan)) :
    ∀ batch ∈ plan.planned ++ plan.closing, batch.Sound client.ceiling := by
  cases call with
  | rebalance weights =>
    obtain ⟨batches, first, rest, -, hfirst, hrest⟩ := Call.runs_bind_ok_iff.1 h
    obtain ⟨-, hplanned⟩ := Call.runs_pure_iff.1 hrest
    cases hplanned
    obtain ⟨-, -, projection, movements, -, -, hbatches⟩ := Client.runs_planRebalance_iff.1 hfirst
    intro batch hbatch
    have hmem : batch ∈ batches := by
      simpa [ScopedPlan.planned, ScopedPlan.closing] using hbatch
    exact Client.sound_of_rebalanceBatches hbatches batch hmem
  | deposit pair amount source =>
    obtain ⟨-, -, stored, wrapped, main, -, funded, -, -, hmain, hlaid, -⟩ :=
      Client.runs_planDeposit_iff.1 h
    exact Client.sound_of_layOut (by simp) (Batch.sound_of_behindRefresh hmain) hlaid
  | withdraw pair amount =>
    obtain ⟨-, -, shares, before, wrapped, account, setup, main, freed, funded, found, -, -, hfreed,
      -, -, hmain, hlaid⟩ := Client.runs_planWithdraw_iff.1 h
    have hbefore : ∀ batch ∈ before, batch.Sound client.ceiling := by
      rcases Client.runs_planFreeing_iff.1 hfreed with ⟨-, -, _, _, -, -, hpack⟩ | ⟨-, -, rfl⟩
      · exact Batch.sound_of_pack hpack
      · simp
    exact Client.sound_of_layOut hbefore (Batch.sound_of_behindRefresh hmain) hlaid

/-- What is submitted in a call is a batch of its plan. -/
theorem exists_batch_of_submission {after : Client} {exchanges : List Exchange}
    {result : ExecutionResult} {instructions : List Instruction} {signers : List Keypair}
    {reply : Except Rejection Signature}
    (hrun : Runs (call.perform client) exchanges (result, after))
    (hsent : (⟨.submit instructions signers, reply⟩ : Exchange) ∈ exchanges) :
    ∃ asked plan batch, Call.Runs (call.plan client) asked (.ok plan) ∧
      batch ∈ plan.planned ++ plan.closing ∧
      batch.ready client.encoder plan.keyring = .ok (instructions, signers) := by
  obtain ⟨executed, closed, outcome, rfl, hexecuted, -, hquiet, -⟩ := course_of_runs_perform hrun
  rcases List.mem_append.1 hsent with hmem | hmem
  · rcases asking_or_sends hexecuted _ hmem with hasking |
      ⟨asked, plan, batch, _, _, hplan, hbatch, hready, hsubmit⟩
    · cases hasking
    · cases hsubmit
      exact ⟨asked, plan, batch, hplan, hbatch, hready⟩
  · have hsubmitted : (⟨.submit instructions signers, reply⟩ : Exchange) ∈ submissions closed :=
      List.mem_filter.2 ⟨hmem, rfl⟩
    rw [hquiet] at hsubmitted
    cases hsubmitted

end VaultCall

/-! ## The law -/

/-- However a client came to be as it is since it was opened, whatever it is called for and whatever
the ledger answers: what it hands to the ledger at a time has at most as many instructions as the
ceiling allows, every reconcile stands behind a refresh of its venue by the same accounts, and every
venue that is refreshed or reconciled is enabled, and was wired to these accounts at the opening. -/
theorem a_submission_refreshes_what_it_reconciles {deployment : Deployment}
    {payer program vault : Key} {ceiling : Nat} {opening exchanges : List Exchange}
    {opened client after : Client} {call : VaultCall} {result : ExecutionResult}
    {instructions : List Instruction} {signers : List Keypair} {reply : Except Rejection Signature}
    (hopened : Call.Runs (Client.connect payer program vault deployment ceiling) opening (.ok opened))
    (hleads : opened.Leads client)
    (hrun : Runs (call.perform client) exchanges (result, after))
    (hsent : (⟨.submit instructions signers, reply⟩ : Exchange) ∈ exchanges) :
    instructions.length ≤ ceiling ∧
    (∀ (h : Handle) keys option earlier later,
      instructions = earlier ++ h.reconcile keys option :: later →
      ∃ handle, h.Alike handle ∧ handle.refresh client.encoder.keys ∈ earlier) ∧
    ∀ (h : Handle) keys,
      h.refresh keys ∈ instructions ∨ (∃ option, h.reconcile keys option ∈ instructions) →
      client.record.account.isEnabled h.adapter.venue ∧
      ∃ handle, opened.handles.get? h.adapter.venue = some handle ∧ h.Alike handle := by
  obtain ⟨first, handles, -, hwired, rfl⟩ := Client.runs_connect_iff.1 hopened
  obtain ⟨record, rfl⟩ := hleads.eq
  obtain ⟨asked, plan, batch, hplan, hbatch, hready⟩ :=
    VaultCall.exists_batch_of_submission hrun hsent
  have hsound := VaultCall.sound_of_runs_plan hplan batch hbatch
  have hwithin := (VaultCall.laidOut_of_runs_plan hplan).within batch hbatch
  obtain ⟨_, hencoded, hrest⟩ := Except.bind_eq_ok_iff.1 hready
  obtain ⟨_, -, hpair⟩ := Except.bind_eq_ok_iff.1 hrest
  cases hpair
  refine ⟨?_, ?_, ?_⟩
  · rw [Encoder.length_operations hencoded]
    exact hsound.fits
  · rintro h keys option earlier later rfl
    exact Encoder.refresh_mem_of_reconcile hsound.fresh hencoded
  · intro h keys hmem
    obtain ⟨v, hv, handle, hhandle, halike⟩ :=
      Encoder.exists_handle_of_mem hwithin hencoded hmem
    have hvenue : h.adapter.venue = v :=
      halike.venue.trans (Deployment.venue_of_wire hwired hhandle)
    have henabled := (List.mem_filter.1 (List.mem_filter.1 hv).1).2
    rw [hvenue]
    exact ⟨henabled, handle, hhandle, halike⟩

namespace OneVenue

def deployment : Deployment := ⟨[handle.adapter], List.nodup_singleton _⟩

/-- What is read of the vault when the client is opened. -/
def opening : List Exchange :=
  [⟨.account default, .ok (some ⟨1, (account 1000).encode, default⟩)⟩,
   ⟨.account default, .ok (some ⟨1, Token.mintData 1000, default⟩)⟩,
   ⟨.account default, .ok (some ⟨1, Token.holdingData Key.nativeMint.bytes Key.nativeMint.bytes 0,
     default⟩)⟩]

theorem runs_connect :
    Call.Runs (Client.connect default default default deployment 6) opening (.ok client) := by
  have hload : Call.Runs (VaultRecord.load default 1) opening (.ok client.record) :=
    VaultRecord.runs_load_iff.2 ⟨_, _, _, account 1000, rfl,
      by simpa using (account 1000).decode_encode default [], by decide +kernel⟩
  exact Client.runs_connect_iff.2 ⟨client.record, client.handles, hload, by decide +kernel, rfl⟩

theorem a_withdrawal_refreshes_what_it_reconciles :
    Call.Runs (Client.connect default default default deployment 6) opening (.ok client) ∧
    client.Leads client ∧
    Runs ((VaultCall.withdraw pair 500).perform client) refusedExchanges (refusedResult, client) ∧
    (⟨.submit [handle.refresh client.encoder.keys, handle.reconcile client.encoder.keys 500] [],
      .ok signature⟩ : Exchange) ∈ refusedExchanges ∧
    [handle.refresh client.encoder.keys, handle.reconcile client.encoder.keys 500].length ≤ 6 ∧
    (∀ (h : Handle) keys option earlier later,
      [handle.refresh client.encoder.keys, handle.reconcile client.encoder.keys 500] =
        earlier ++ h.reconcile keys option :: later →
      ∃ handle, h.Alike handle ∧ handle.refresh client.encoder.keys ∈ earlier) ∧
    ∀ (h : Handle) keys,
      h.refresh keys ∈
          [handle.refresh client.encoder.keys, handle.reconcile client.encoder.keys 500] ∨
        (∃ option, h.reconcile keys option ∈
          [handle.refresh client.encoder.keys, handle.reconcile client.encoder.keys 500]) →
      client.record.account.isEnabled h.adapter.venue ∧
      ∃ handle, client.handles.get? h.adapter.venue = some handle ∧ h.Alike handle := by
  have hleads : client.Leads client := .call .here runs_refused_withdrawal
  have hsent : (⟨.submit [handle.refresh client.encoder.keys,
      handle.reconcile client.encoder.keys 500] [], .ok signature⟩ : Exchange) ∈
      refusedExchanges :=
    List.mem_append_right _ List.mem_cons_self
  exact ⟨runs_connect, hleads, runs_refused_withdrawal, hsent,
    a_submission_refreshes_what_it_reconciles runs_connect hleads runs_refused_withdrawal hsent⟩

end OneVenue

end YieldVault
