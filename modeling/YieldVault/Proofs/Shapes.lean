-- The law of shapes: what a batch of a plan can be. It moves capital between the vault
-- and its venues, commits a target, pays in or out, sets accounts up, or closes the
-- wrapped account; and a batch that the vault is halted for is never planned.
import YieldVault.Proofs.Transfers

namespace YieldVault

open Call (Runs)

namespace Client

/-- What a planned batch can be. -/
inductive Lays (client : Client) : Batch → Prop
  /-- Refreshes and reconciles. -/
  | moving {batch : Batch} :
      client.record.account.isHalted .refreshes = false →
      client.record.account.isHalted .reconciles = false → batch.signers = [] →
      (∀ op ∈ batch.operations, (∃ v, op = .refresh v) ∨ ∃ step, op = .reconcile step) →
      Lays client batch
  /-- The commit of a target, behind refreshes. -/
  | committing {batch : Batch} {weights : Option Weights} :
      client.record.account.isHalted .refreshes = false → batch.signers = [] →
      (∀ op ∈ batch.operations, (∃ v, op = .refresh v) ∨ op = .consolidate ∨
        op = .rebalance weights) →
      Lays client batch
  /-- A deposit or a withdrawal, behind refreshes. -/
  | paying {batch : Batch} {transfer : Operation} : transfer.isTransfer →
      client.record.account.isHalted .refreshes = false →
      client.record.account.isHalted .transfers = false → batch.signers = [] →
      (∀ op ∈ batch.operations, (∃ v, op = .refresh v) ∨ op = .consolidate ∨ op = transfer) →
      Lays client batch
  /-- What has to be created, the wrapped account at last. -/
  | opening {created : List Operation} {wrapped : Option WrappedAccount} :
      (∀ op ∈ created, ∃ mint, op = .createAssociated mint) →
      Lays client ⟨.setup, created ++ ScopedPlan.acquired wrapped,
        (wrapped.map (·.address)).toList⟩
  | closing (w : WrappedAccount) : Lays client (ScopedPlan.releasing w)

variable {client : Client} {exchanges : List Exchange} {plan : ScopedPlan}

theorem lays_of_pack {steps : List ReconcileStep} {batches : List Batch}
    (hrefreshes : client.record.account.isHalted .refreshes = false)
    (hreconciles : client.record.account.isHalted .reconciles = false)
    (h : Batch.pack client.ceiling client.activeVenues steps = .ok batches) :
    ∀ batch ∈ batches, client.Lays batch := by
  intro batch hbatch
  refine .moving hrefreshes hreconciles (Batch.routine_of_pack h batch hbatch).unsigned ?_
  intro op hop
  rcases Batch.mem_operations_of_pack h hbatch hop with ⟨v, -, rfl⟩ | ⟨step, -, rfl⟩
  · exact .inl ⟨v, rfl⟩
  · exact .inr ⟨step, rfl⟩

/-- A batch behind a refresh holds refreshes, the vault's total, and the one operation. -/
theorem mem_of_behindRefresh {kind : BatchKind} {act : Operation} {batches : List Batch}
    (h : Batch.behindRefresh client.ceiling kind client.activeVenues [act] = .ok batches)
    {batch : Batch} (hbatch : batch ∈ batches) :
    batch.signers = [] ∧
      ∀ op ∈ batch.operations, (∃ v, op = .refresh v) ∨ op = .consolidate ∨ op = act := by
  refine ⟨?_, fun op hop => ?_⟩
  · obtain ⟨ahead, beside, -, rfl, -⟩ := Batch.behindRefresh_eq_ok h
    rcases List.mem_append.1 hbatch with hbatch | hbatch
    · obtain ⟨piece, -, rfl⟩ := List.mem_map.1 hbatch
      rfl
    · rw [List.mem_singleton.1 hbatch]
  · rcases Batch.mem_operations_of_behindRefresh h hbatch hop with ⟨v, -, rfl⟩ | rfl | hact
    · exact .inl ⟨v, rfl⟩
    · exact .inr (.inl rfl)
    · exact .inr (.inr (List.mem_singleton.1 hact))

theorem lays_of_layOut {before main : List Batch} {setup : List Operation}
    {wrapped : Option WrappedAccount} (hbefore : ∀ batch ∈ before, client.Lays batch)
    (hsetup : ∀ op ∈ setup, ∃ mint, op = .createAssociated mint)
    (hmain : ∀ batch ∈ main, client.Lays batch)
    (h : ScopedPlan.layOut client.ceiling before setup main wrapped = .ok plan) :
    ∀ batch ∈ plan.planned ++ plan.closing, client.Lays batch :=
  ScopedPlan.forall_batch_of_layOut h hbefore (.opening hsetup) hmain .closing

theorem lays_of_runs_planRebalance {weights : Option Weights} {batches : List Batch}
    (h : Runs (client.planRebalance weights) exchanges (.ok batches)) :
    ∀ batch ∈ batches, client.Lays batch := by
  obtain ⟨hrefreshes, hreconciles, projection, movements, -, -, hbatches⟩ :=
    runs_planRebalance_iff.1 h
  rw [VaultRecord.ensureRunning_eq_ok_iff] at hrefreshes hreconciles
  unfold rebalanceBatches at hbatches
  split at hbatches
  · cases hbatches
    simp
  · obtain ⟨commit, hcommit, hrest⟩ := Except.bind_eq_ok_iff.1 hbatches
    obtain ⟨reconciles, hpack, hall⟩ := Except.bind_eq_ok_iff.1 hrest
    cases hall
    intro batch hbatch
    rcases List.mem_append.1 hbatch with hbatch | hbatch
    · obtain ⟨hunsigned, hops⟩ := mem_of_behindRefresh hcommit hbatch
      exact .committing hrefreshes hunsigned hops
    · exact lays_of_pack hrefreshes hreconciles hpack batch hbatch

theorem ensureTransfers_eq_ok_iff :
    client.ensureTransfers = .ok () ↔ client.record.account.isHalted .transfers = false ∧
      client.record.account.isHalted .refreshes = false := by
  rw [← VaultRecord.ensureRunning_eq_ok_iff, ← VaultRecord.ensureRunning_eq_ok_iff]
  unfold ensureTransfers
  rw [Except.bind_eq_ok_iff]
  constructor
  · rintro ⟨⟨⟩, htransfers, hrefreshes⟩
    exact ⟨htransfers, hrefreshes⟩
  · rintro ⟨htransfers, hrefreshes⟩
    exact ⟨(), htransfers, hrefreshes⟩

theorem lays_of_transfer {kind : BatchKind} {transfer : Operation} {main : List Batch}
    (hrunning : client.ensureTransfers = .ok ()) (htransfer : transfer.isTransfer)
    (h : Batch.behindRefresh client.ceiling kind client.activeVenues [transfer] = .ok main) :
    ∀ batch ∈ main, client.Lays batch := by
  obtain ⟨htransfers, hrefreshes⟩ := ensureTransfers_eq_ok_iff.1 hrunning
  intro batch hbatch
  obtain ⟨hunsigned, hops⟩ := mem_of_behindRefresh h hbatch
  exact .paying htransfer hrefreshes htransfers hunsigned hops

theorem lays_of_runs_planDeposit {pair : Keypair} {amount : UInt64} {source : Option Key}
    (h : Runs (client.planDeposit pair amount source) exchanges (.ok plan)) :
    ∀ batch ∈ plan.planned ++ plan.closing, client.Lays batch := by
  obtain ⟨-, hrunning, stored, wrapped, main, -, funded, -, -, hmain, hlaid, -⟩ :=
    runs_planDeposit_iff.1 h
  refine lays_of_layOut (by simp) ?_ (lays_of_transfer hrunning rfl hmain) hlaid
  cases stored <;> simp [shareSetup]

theorem lays_of_runs_planFreeing {amount : UInt64} {batches : List Batch}
    (hrefreshes : client.record.account.isHalted .refreshes = false)
    (h : Runs (client.planFreeing amount) exchanges (.ok batches)) :
    ∀ batch ∈ batches, client.Lays batch := by
  rcases runs_planFreeing_iff.1 h with ⟨-, hreconciles, -, steps, -, -, hpack⟩ | ⟨-, -, rfl⟩
  · exact lays_of_pack hrefreshes (VaultRecord.ensureRunning_eq_ok_iff.1 hreconciles) hpack
  · simp

theorem lays_of_runs_planWithdraw {pair : Keypair} {amount : UInt64}
    (h : Runs (client.planWithdraw pair amount) exchanges (.ok plan)) :
    ∀ batch ∈ plan.planned ++ plan.closing, client.Lays batch := by
  obtain ⟨-, hrunning, shares, before, wrapped, account, setup, main, freed, funded, found, -, -,
    hfreed, -, hfound, hmain, hlaid⟩ := runs_planWithdraw_iff.1 h
  have hrefreshes := (ensureTransfers_eq_ok_iff.1 hrunning).2
  refine lays_of_layOut (lays_of_runs_planFreeing hrefreshes hfreed) ?_
    (lays_of_transfer hrunning rfl hmain) hlaid
  intro op hop
  exact ⟨_, (eq_of_runs_destination hfound).2 op hop⟩

end Client

theorem VaultCall.lays_of_runs_plan {client : Client} {call : VaultCall} {asked : List Exchange}
    {plan : ScopedPlan} (h : Runs (call.plan client) asked (.ok plan)) :
    ∀ batch ∈ plan.planned ++ plan.closing, client.Lays batch := by
  cases call with
  | rebalance weights =>
    obtain ⟨batches, first, rest, -, hfirst, hrest⟩ := Call.runs_bind_ok_iff.1 h
    obtain ⟨-, hplanned⟩ := Call.runs_pure_iff.1 hrest
    cases hplanned
    simpa [ScopedPlan.planned, ScopedPlan.closing] using Client.lays_of_runs_planRebalance hfirst
  | deposit pair amount source => exact Client.lays_of_runs_planDeposit h
  | withdraw pair amount => exact Client.lays_of_runs_planWithdraw h

end YieldVault
