-- The law of readiness: every batch of a plan can be handed to the ledger, since
-- it touches only venues that the client is wired to, and is signed by keypairs
-- that are at hand.
import YieldVault.Proofs.Operands
import YieldVault.Proofs.Plans
import YieldVault.Proofs.Submissions

namespace YieldVault

open Call (Runs)

/-! ## Operations on some venues -/

/-- Whether an operation touches no venue but the given ones. -/
def Operation.Within (venues : List Venue) : Operation → Prop
  | .refresh venue => venue ∈ venues
  | .reconcile step => step.venue ∈ venues
  | _ => True

/-- A venue that is refreshed or reconciled is one that is touched. -/
theorem Operation.Within.mem {venues : List Venue} {op : Operation} (h : op.Within venues)
    {v : Venue} (hop : op.venue? = some v) : v ∈ venues := by
  cases op with
  | refresh w =>
    cases hop
    exact h
  | reconcile step =>
    cases hop
    exact h
  | _ => cases hop

/-- Operations on wired venues have instructions. -/
theorem Encoder.exists_operations {encoder : Encoder} {venues : List Venue}
    (hwired : ∀ v ∈ venues, encoder.handles.contains v) {ops : List Operation}
    (hops : ∀ op ∈ ops, op.Within venues) :
    ∃ instructions, encoder.operations ops = .ok instructions :=
  exists_operations_iff.2 fun op hop _ hv => hwired _ ((hops op hop).mem hv)

namespace Batch

variable {venues : List Venue}

theorem exists_keypairOf {keyring : List Keypair} {signer : Key}
    (h : ∃ pair ∈ keyring, pair.address = signer) : ∃ pair, keypairOf keyring signer = .ok pair := by
  have hsome : (keyring.find? fun pair => pair.address == signer).isSome := by
    rw [List.find?_isSome]
    obtain ⟨pair, hpair, haddress⟩ := h
    exact ⟨pair, hpair, by simp [haddress]⟩
  obtain ⟨pair, hpair⟩ := Option.isSome_iff_exists.1 hsome
  exact ⟨pair, by rw [keypairOf, hpair]⟩

theorem sendable_of_within {encoder : Encoder} {keyring : List Keypair} {batch : Batch}
    (hwired : ∀ v ∈ venues, encoder.handles.contains v)
    (hwithin : ∀ op ∈ batch.operations, op.Within venues)
    (hsigners : ∀ signer ∈ batch.signers, ∃ pair ∈ keyring, pair.address = signer) :
    batch.Sendable encoder keyring := by
  obtain ⟨instructions, hinstructions⟩ := Encoder.exists_operations hwired hwithin
  obtain ⟨signers, hkeys⟩ := Except.exists_mapM_eq_ok fun s hs => exists_keypairOf (hsigners s hs)
  exact ⟨(instructions, signers), by rw [ready, Encoder.encode, hinstructions, hkeys]; rfl⟩

/-- A batch that the payer alone signs, and that touches only the given venues. -/
structure Routine (venues : List Venue) (batch : Batch) : Prop where
  within : ∀ op ∈ batch.operations, op.Within venues
  unsigned : batch.signers = []

/-! ## Planned batches -/

theorem routine_of_pack {ceiling : Nat} {steps : List ReconcileStep} {batches : List Batch}
    (h : pack ceiling venues steps = .ok batches) : ∀ batch ∈ batches, batch.Routine venues := by
  intro batch hbatch
  refine ⟨fun op hop => ?_, ?_⟩
  · rcases mem_operations_of_pack h hbatch hop with ⟨v, hv, rfl⟩ | ⟨step, hstep, rfl⟩
    · exact hv
    · exact hstep
  · obtain ⟨b, -, rfl⟩ := within_of_pack h hbatch
    rfl

theorem routine_of_behindRefresh {ceiling : Nat} {kind : BatchKind} {operations : List Operation}
    {batches : List Batch} (hops : ∀ op ∈ operations, op.Within venues)
    (h : behindRefresh ceiling kind venues operations = .ok batches) :
    ∀ batch ∈ batches, batch.Routine venues := by
  intro batch hbatch
  refine ⟨fun op hop => ?_, ?_⟩
  · rcases mem_operations_of_behindRefresh h hbatch hop with ⟨v, hv, rfl⟩ | rfl | hop
    · exact hv
    · trivial
    · exact hops op hop
  · obtain ⟨ahead, beside, -, rfl, -, -⟩ := behindRefresh_eq_ok h
    rcases List.mem_append.1 hbatch with hbatch | hbatch
    · obtain ⟨piece, -, rfl⟩ := List.mem_map.1 hbatch
      rfl
    · rw [List.mem_singleton.1 hbatch]

end Batch

/-! ## Planned calls -/

namespace Client

variable {client : Client} {exchanges : List Exchange}

/-- Active venues are wired. -/
theorem wired (client : Client) : ∀ v ∈ client.activeVenues, client.encoder.handles.contains v :=
  fun _ hv => (List.mem_filter.1 hv).2

/-- A plan laid out from what touches only active venues. -/
def LaidOut (client : Client) (plan : ScopedPlan) : Prop :=
  ∃ before setup main wrapped,
    (∀ batch ∈ before, batch.Routine client.activeVenues) ∧
    (∀ op ∈ setup, op.Within client.activeVenues) ∧
    (∀ batch ∈ main, batch.Routine client.activeVenues) ∧
    ScopedPlan.layOut client.ceiling before setup main wrapped = .ok plan

variable {plan : ScopedPlan}

/-- All that such a plan closes is the wrapped account. -/
theorem LaidOut.closing_eq (h : client.LaidOut plan) :
    plan.closing = (plan.scope.map fun scope => ScopedPlan.releasing scope.1).toList := by
  obtain ⟨before, setup, main, wrapped, -, -, -, hlaid⟩ := h
  obtain ⟨-, -, hscope, -⟩ := ScopedPlan.layOut_eq_ok hlaid
  rw [ScopedPlan.closing, hscope]
  cases wrapped <;> rfl

/-- A plan touches only venues that are active. -/
theorem LaidOut.within (h : client.LaidOut plan) :
    ∀ batch ∈ plan.planned ++ plan.closing, ∀ op ∈ batch.operations,
      op.Within client.activeVenues := by
  obtain ⟨before, setup, main, wrapped, hbefore, hsetup, hmain, hlaid⟩ := h
  refine ScopedPlan.forall_batch_of_layOut hlaid ?_ ?_ ?_ ?_
  · exact fun batch hbatch => (hbefore batch hbatch).within
  · intro op hop
    rcases List.mem_append.1 hop with hop | hop
    · exact hsetup op hop
    · obtain ⟨w, -, rfl⟩ := Option.map_eq_some_iff.1 (Option.mem_toList.1 hop)
      trivial
  · exact fun batch hbatch => (hmain batch hbatch).within
  · intro w op hop
    rw [List.mem_singleton.1 hop]
    trivial

/-- Who must sign a batch of it is the wrapped account, whose pair is at hand. -/
theorem LaidOut.signers (h : client.LaidOut plan) :
    ∀ batch ∈ plan.planned ++ plan.closing, ∀ signer ∈ batch.signers,
      ∃ pair ∈ plan.keyring, pair.address = signer := by
  obtain ⟨before, setup, main, wrapped, hbefore, hsetup, hmain, hlaid⟩ := h
  obtain ⟨-, -, hscope, -⟩ := ScopedPlan.layOut_eq_ok hlaid
  refine ScopedPlan.forall_batch_of_layOut hlaid ?_ ?_ ?_ ?_
  · intro batch hbatch
    simp [(hbefore batch hbatch).unsigned]
  · intro signer hsigner
    obtain ⟨w, hw, rfl⟩ := Option.map_eq_some_iff.1 (Option.mem_toList.1 hsigner)
    exact ⟨w.pair, by simp [ScopedPlan.keyring, hscope, hw], rfl⟩
  · intro batch hbatch
    simp [(hmain batch hbatch).unsigned]
  · simp [ScopedPlan.releasing]

/-- So it can be sent in full. -/
theorem LaidOut.sendable (h : client.LaidOut plan) :
    ∀ batch ∈ plan.planned ++ plan.closing, batch.Sendable client.encoder plan.keyring := by
  intro batch hbatch
  exact Batch.sendable_of_within client.wired (h.within batch hbatch) (h.signers batch hbatch)

theorem routine_of_rebalanceBatches {weights : Option Weights} {movements : List Movement}
    {batches : List Batch} (h : client.rebalanceBatches weights movements = .ok batches) :
    ∀ batch ∈ batches, batch.Routine client.activeVenues := by
  unfold rebalanceBatches at h
  split at h
  · cases h
    simp
  · obtain ⟨commit, hcommit, hrest⟩ := Except.bind_eq_ok_iff.1 h
    obtain ⟨reconciles, hreconciles, hbatches⟩ := Except.bind_eq_ok_iff.1 hrest
    cases hbatches
    have hops : ∀ op ∈ [Operation.rebalance weights], op.Within client.activeVenues := by
      simp [Operation.Within]
    intro batch hbatch
    rcases List.mem_append.1 hbatch with hbatch | hbatch
    · exact Batch.routine_of_behindRefresh hops hcommit batch hbatch
    · exact Batch.routine_of_pack hreconciles batch hbatch

theorem routine_of_runs_planFreeing {amount : UInt64} {batches : List Batch}
    (h : Runs (client.planFreeing amount) exchanges (.ok batches)) :
    ∀ batch ∈ batches, batch.Routine client.activeVenues := by
  rcases runs_planFreeing_iff.1 h with ⟨-, -, projection, steps, -, -, hpack⟩ | ⟨-, -, rfl⟩
  · exact Batch.routine_of_pack hpack
  · simp

/-- A withdrawal is paid into the wrapped account, or else into the payer's own, which may have to be
created. -/
theorem eq_of_runs_destination {wrapped : Option WrappedAccount} {account : Key}
    {setup : List Operation}
    (h : Runs (client.destination wrapped) exchanges (.ok (account, setup))) :
    account = (wrapped.map (·.address)).getD client.reserveAccount ∧
      ∀ op ∈ setup, op = .createAssociated client.record.denomination := by
  cases wrapped with
  | none =>
    obtain ⟨stored, -, rfl, rfl⟩ := runs_destination_none_iff.1 h
    refine ⟨by rw [Option.map_none, Option.getD_none], ?_⟩
    cases stored <;> simp
  | some w =>
    obtain ⟨-, hfound⟩ := Call.runs_pure_iff.1 h
    cases hfound
    exact ⟨by rw [Option.map_some, Option.getD_some], by simp⟩

theorem laidOut_of_runs_planRebalance {weights : Option Weights} {batches : List Batch}
    (h : Runs (client.planRebalance weights) exchanges (.ok batches)) :
    client.LaidOut ⟨batches, none, [], none⟩ := by
  obtain ⟨-, -, projection, movements, -, -, hbatches⟩ := runs_planRebalance_iff.1 h
  exact ⟨batches, [], [], none, routine_of_rebalanceBatches hbatches, by simp, by simp, rfl⟩

theorem laidOut_of_runs_planDeposit {pair : Keypair} {amount : UInt64} {source : Option Key}
    (h : Runs (client.planDeposit pair amount source) exchanges (.ok plan)) :
    client.LaidOut plan := by
  obtain ⟨-, -, stored, wrapped, main, -, funded, -, -, hmain, hlaid, -⟩ :=
    runs_planDeposit_iff.1 h
  refine ⟨[], _, main, wrapped, by simp, ?_, ?_, hlaid⟩
  · cases stored <;> simp [shareSetup, Operation.Within]
  · exact Batch.routine_of_behindRefresh (by simp [Operation.Within]) hmain

theorem laidOut_of_runs_planWithdraw {pair : Keypair} {amount : UInt64}
    (h : Runs (client.planWithdraw pair amount) exchanges (.ok plan)) :
    client.LaidOut plan := by
  obtain ⟨-, -, shares, before, wrapped, account, setup, main, first, funded, found, -, -, hfreeing,
    -, hfound, hmain, hlaid⟩ := runs_planWithdraw_iff.1 h
  refine ⟨before, setup, main, wrapped, routine_of_runs_planFreeing hfreeing, ?_, ?_, hlaid⟩
  · intro op hop
    rw [(eq_of_runs_destination hfound).2 op hop]
    trivial
  · exact Batch.routine_of_behindRefresh (by simp [Operation.Within]) hmain

end Client

end YieldVault
