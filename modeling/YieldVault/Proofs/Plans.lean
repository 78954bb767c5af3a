-- The laws of plans: what a call has asked, and what it has found, once its
-- batches are laid out.
import YieldVault.Proofs.Dialogues
import YieldVault.Proofs.Packing

namespace YieldVault

open Call (Runs)

/-! ## The batches of a scope -/

namespace ScopedPlan

/-- The batches that a plan means to send, in order. -/
def planned (plan : ScopedPlan) : List Batch := plan.before ++ plan.setup.toList ++ plan.main

/-- The batch that closes the wrapped account, if there is one. -/
def closing (plan : ScopedPlan) : List Batch := (plan.scope.map (·.2)).toList

/-- The operations that a wrapped account adds to a setup. -/
def acquired (wrapped : Option WrappedAccount) : List Operation :=
  (wrapped.map (·.acquire)).toList

/-- The batch that closes a wrapped account. -/
def releasing (w : WrappedAccount) : Batch := ⟨.cleanup, [w.release], []⟩

/-- What is laid out for a call is what was given, with a wrapped account at its two ends; and what
stands there passed for one batch. -/
theorem layOut_eq_ok {ceiling : Nat} {before main : List Batch} {setup : List Operation}
    {wrapped : Option WrappedAccount} {plan : ScopedPlan}
    (h : layOut ceiling before setup main wrapped = .ok plan) :
    plan.before = before ∧ plan.main = main ∧
      plan.scope = wrapped.map (fun w => (w, releasing w)) ∧
      (setup ++ acquired wrapped = [] ∧ plan.setup = none ∨
        plan.setup =
          some ⟨.setup, setup ++ acquired wrapped, (wrapped.map (·.address)).toList⟩) ∧
      ∀ batch ∈ plan.setup.toList ++ plan.closing, Batch.single ceiling batch = .ok batch := by
  cases wrapped with
  | none =>
    cases setup with
    | nil =>
      cases h
      exact ⟨rfl, rfl, rfl, .inl ⟨rfl, rfl⟩, by simp [closing]⟩
    | cons op rest =>
      obtain ⟨_, hopening, hplan⟩ := Except.bind_eq_ok_iff.1 h
      obtain ⟨batch, hbatch, rfl⟩ := Except.map_eq_ok_iff.1 hopening
      obtain ⟨rfl, -, -⟩ := Batch.single_eq_ok hbatch
      cases hplan
      exact ⟨rfl, rfl, rfl, .inr rfl, by simpa [closing] using hbatch⟩
  | some w =>
    simp only [layOut] at h
    split at h
    · rename_i hnone
      simp at hnone
    · obtain ⟨_, hopening, hclosing⟩ := Except.bind_eq_ok_iff.1 h
      obtain ⟨batch, hbatch, rfl⟩ := Except.map_eq_ok_iff.1 hopening
      obtain ⟨rfl, -, -⟩ := Batch.single_eq_ok hbatch
      obtain ⟨_, hscope, hplan⟩ := Except.bind_eq_ok_iff.1 hclosing
      obtain ⟨cleanup, hcleanup, rfl⟩ := Except.map_eq_ok_iff.1 hscope
      obtain ⟨rfl, -, -⟩ := Batch.single_eq_ok hcleanup
      cases hplan
      exact ⟨rfl, rfl, rfl, .inr rfl, by simpa [closing] using ⟨hbatch, hcleanup⟩⟩

section

variable {ceiling : Nat} {before main : List Batch} {setup : List Operation}
  {wrapped : Option WrappedAccount} {plan : ScopedPlan} {batch : Batch}

theorem eq_of_mem_setup (h : layOut ceiling before setup main wrapped = .ok plan)
    (hbatch : batch ∈ plan.setup) :
    batch = ⟨.setup, setup ++ acquired wrapped, (wrapped.map (·.address)).toList⟩ := by
  obtain ⟨-, -, -, ⟨-, hnone⟩ | hsome, -⟩ := layOut_eq_ok h
  · simp [hnone] at hbatch
  · rw [hsome] at hbatch
    exact (Option.some.inj hbatch).symm

theorem exists_of_mem_closing (h : layOut ceiling before setup main wrapped = .ok plan)
    (hbatch : batch ∈ plan.closing) : ∃ w, batch = releasing w := by
  obtain ⟨-, -, hscope, -⟩ := layOut_eq_ok h
  rw [closing, hscope, Option.map_map, Option.mem_toList] at hbatch
  obtain ⟨w, -, rfl⟩ := Option.map_eq_some_iff.1 hbatch
  exact ⟨w, rfl⟩

/-- What holds of the batches that are given, and of those that a wrapped account is opened and
closed by, holds of every batch of the plan. -/
theorem forall_batch_of_layOut {p : Batch → Prop}
    (h : layOut ceiling before setup main wrapped = .ok plan)
    (hbefore : ∀ batch ∈ before, p batch)
    (hsetup : p ⟨.setup, setup ++ acquired wrapped, (wrapped.map (·.address)).toList⟩)
    (hmain : ∀ batch ∈ main, p batch) (hclosing : ∀ w, p (releasing w)) :
    ∀ batch ∈ plan.planned ++ plan.closing, p batch := by
  obtain ⟨rfl, rfl, -⟩ := layOut_eq_ok h
  intro batch hbatch
  simp only [planned, List.mem_append, Option.mem_toList] at hbatch
  rcases hbatch with ((hbatch | hbatch) | hbatch) | hbatch
  · exact hbefore batch hbatch
  · rwa [eq_of_mem_setup h hbatch]
  · exact hmain batch hbatch
  · obtain ⟨w, rfl⟩ := exists_of_mem_closing h hbatch
    exact hclosing w

end

end ScopedPlan

namespace Client

variable {client : Client} {exchanges : List Exchange}

/-! ## Simulations -/

theorem accepted_eq_ok {s s' : Simulation} (h : s.accepted = .ok s') :
    s' = s ∧ s.rejection = none := by
  unfold Simulation.accepted at h
  split at h
  · cases h
  · rename_i hr
    cases h
    exact ⟨rfl, hr⟩

/-- A projection is read off one accepted simulation, whose first account is the vault's. -/
theorem runs_project_iff {weights : Option Weights} {projection : Projection} :
    Runs (client.project weights) exchanges (.ok projection) ↔
      ∃ instructions simulation data others account,
        client.encoder.operations (commitOperations client.activeVenues weights) =
          .ok instructions ∧
        exchanges =
          [⟨.simulate instructions [client.record.address], .ok simulation⟩] ∧
        simulation.rejection = none ∧ simulation.accounts = some data :: others ∧
        VaultAccount.decode client.record.address data = .ok account ∧
        projection = ⟨account.targetSet, account.actualSet, account.value.value⟩ := by
  unfold project
  rw [Call.runs_lift_bind_ok_iff]
  constructor
  · rintro ⟨instructions, hinstructions, hrun⟩
    obtain ⟨simulation, first, rest, rfl, hfirst, hrest⟩ := Call.runs_bind_ok_iff.1 hrun
    obtain rfl := Call.runs_simulate_iff.1 hfirst
    obtain ⟨accepted, haccepted, hread⟩ := Call.runs_lift_bind_ok_iff.1 hrest
    obtain ⟨rfl, hrejection⟩ := accepted_eq_ok haccepted
    split at hread
    · rename_i data others haccounts
      obtain ⟨account, haccount, hread⟩ := Call.runs_lift_bind_ok_iff.1 hread
      obtain ⟨rfl, hprojection⟩ := Call.runs_pure_iff.1 hread
      injection hprojection with hprojection
      exact ⟨instructions, _, data, others, account, hinstructions, by simp, hrejection, haccounts,
        haccount, hprojection⟩
    · obtain ⟨-, hthrow⟩ := Call.runs_throw_iff.1 hread
      cases hthrow
  · rintro ⟨instructions, simulation, data, others, account, hinstructions, rfl, hrejection,
      haccounts, haccount, rfl⟩
    refine ⟨instructions, hinstructions, Call.runs_bind_ok_iff.2
      ⟨simulation, _, [], rfl, Call.runs_simulate_iff.2 rfl, ?_⟩⟩
    refine Call.runs_lift_bind_ok_iff.2 ⟨simulation, by simp [Simulation.accepted, hrejection], ?_⟩
    simp only [haccounts]
    exact Call.runs_lift_bind_ok_iff.2 ⟨account, haccount, Call.runs_pure_iff.2 ⟨rfl, rfl⟩⟩

/-! ## Rebalances -/

theorem runs_planRebalance_iff {weights : Option Weights} {batches : List Batch} :
    Runs (client.planRebalance weights) exchanges (.ok batches) ↔
      client.record.ensureRunning [.refreshes] = .ok () ∧
      client.record.ensureRunning [.reconciles] = .ok () ∧
      ∃ projection movements, Runs (client.project weights) exchanges (.ok projection) ∧
        projection.target.movements projection.actual = .ok movements ∧
        client.rebalanceBatches weights (Movement.inOrder movements) = .ok batches := by
  unfold planRebalance
  rw [Call.runs_lift_bind_ok_iff]
  constructor
  · rintro ⟨⟨⟩, hrefreshes, hrun⟩
    obtain ⟨⟨⟩, hreconciles, hrun⟩ := Call.runs_lift_bind_ok_iff.1 hrun
    obtain ⟨projection, first, rest, rfl, hfirst, hrest⟩ := Call.runs_bind_ok_iff.1 hrun
    obtain ⟨movements, hmovements, hrest⟩ := Call.runs_lift_bind_ok_iff.1 hrest
    obtain ⟨rfl, hbatches⟩ := Call.runs_lift_iff.1 hrest
    exact ⟨hrefreshes, hreconciles, projection, movements, by simpa using hfirst, hmovements,
      hbatches⟩
  · rintro ⟨hrefreshes, hreconciles, projection, movements, hproject, hmovements, hbatches⟩
    refine ⟨(), hrefreshes, Call.runs_lift_bind_ok_iff.2 ⟨(), hreconciles, ?_⟩⟩
    refine Call.runs_bind_ok_iff.2 ⟨projection, exchanges, [], by simp, hproject, ?_⟩
    exact Call.runs_lift_bind_ok_iff.2 ⟨movements, hmovements, Call.runs_lift_iff.2 ⟨rfl, hbatches⟩⟩

/-! ## Deposits -/

theorem runs_isPresent_iff {address : Key} {present : Bool} :
    Runs (isPresent address) exchanges (.ok present) ↔
      ∃ stored, exchanges = [⟨.account address, .ok stored⟩] ∧ present = stored.isSome := by
  unfold isPresent
  rw [Call.runs_bind_ok_iff]
  constructor
  · rintro ⟨stored, first, rest, rfl, hfirst, hrest⟩
    obtain rfl := Call.runs_account_iff.1 hfirst
    obtain ⟨rfl, hpresent⟩ := Call.runs_pure_iff.1 hrest
    injection hpresent with hpresent
    exact ⟨stored, rfl, hpresent⟩
  · rintro ⟨stored, rfl, rfl⟩
    exact ⟨stored, _, [], rfl, Call.runs_account_iff.2 rfl, Call.runs_pure_iff.2 ⟨rfl, rfl⟩⟩

/-- A vault of the native asset is paid into and out of through an account that is made for it. -/
theorem runs_wrapped?_iff {pair : Keypair} {amount : UInt64} {wrapped : Option WrappedAccount}
    (hnative : client.record.denomination = Key.nativeMint) :
    Runs (client.wrapped? pair amount) exchanges (.ok wrapped) ↔
      ∃ rent w, exchanges = [⟨.rent Token.accountWidth, .ok rent⟩] ∧
        WrappedAccount.fund? pair rent amount = .ok w ∧ wrapped = some w := by
  unfold wrapped?
  rw [if_pos hnative, Call.runs_bind_ok_iff]
  constructor
  · rintro ⟨rent, first, rest, rfl, hfirst, hrest⟩
    obtain rfl := Call.runs_rent_iff.1 hfirst
    obtain ⟨w, hw, hrest⟩ := Call.runs_lift_bind_ok_iff.1 hrest
    obtain ⟨rfl, hwrapped⟩ := Call.runs_pure_iff.1 hrest
    injection hwrapped with hwrapped
    exact ⟨rent, w, rfl, hw, hwrapped⟩
  · rintro ⟨rent, w, rfl, hw, rfl⟩
    refine ⟨rent, _, [], rfl, Call.runs_rent_iff.2 rfl, ?_⟩
    exact Call.runs_lift_bind_ok_iff.2 ⟨w, hw, Call.runs_pure_iff.2 ⟨rfl, rfl⟩⟩

/-- What has to be created before shares can be paid into the payer's account for them. -/
def shareSetup (client : Client) (stored : Option StoredAccount) : List Operation :=
  if stored.isSome then [] else [.createAssociated client.record.account.shareMint]

/-- Where a deposit comes from. -/
def depositSource (client : Client) (source : Option Key) : Option WrappedAccount → Key
  | some w => w.address
  | none => source.getD client.reserveAccount

/-- Everything that a deposit finds out before its batches are sent. -/
theorem runs_planDeposit_iff {pair : Keypair} {amount : UInt64} {source : Option Key}
    {plan : ScopedPlan} :
    Runs (client.planDeposit pair amount source) exchanges (.ok plan) ↔
      amount ≠ 0 ∧ client.ensureTransfers = .ok () ∧
      ∃ stored wrapped main shares funded,
        exchanges = ⟨.account client.shareAccount, .ok stored⟩ :: funded ∧
        Runs (client.wrapped? pair amount) funded (.ok wrapped) ∧
        Batch.behindRefresh client.ceiling .deposit client.activeVenues
          [.deposit amount (client.depositSource source wrapped) client.shareAccount] = .ok main ∧
        ScopedPlan.layOut client.ceiling [] (client.shareSetup stored) main wrapped = .ok plan ∧
        client.previewDeposit amount = .ok shares := by
  unfold planDeposit
  split
  · rename_i hzero
    simp only [hzero, ne_eq, not_true_eq_false, false_and, iff_false]
    intro hrun
    obtain ⟨_, _, _, _, hthrow, -⟩ := Call.runs_bind_ok_iff.1 hrun
    simpa using Call.runs_throw_iff.1 hthrow
  · rename_i hzero
    simp only [hzero, ne_eq, not_false_eq_true, true_and]
    rw [Call.runs_lift_bind_ok_iff]
    constructor
    · rintro ⟨⟨⟩, htransfers, hrun⟩
      obtain ⟨present, first, rest, rfl, hpresent, hrun⟩ := Call.runs_bind_ok_iff.1 hrun
      obtain ⟨stored, rfl, rfl⟩ := runs_isPresent_iff.1 hpresent
      obtain ⟨wrapped, funded, rest, rfl, hfunded, hrun⟩ := Call.runs_bind_ok_iff.1 hrun
      obtain ⟨main, hmain, hrun⟩ := Call.runs_lift_bind_ok_iff.1 hrun
      obtain ⟨laid, hlaid, hrun⟩ := Call.runs_lift_bind_ok_iff.1 hrun
      obtain ⟨shares, hshares, hrun⟩ := Call.runs_lift_bind_ok_iff.1 hrun
      obtain ⟨rfl, hplan⟩ := Call.runs_pure_iff.1 hrun
      cases hplan
      refine ⟨htransfers, stored, wrapped, main, shares, funded, by simp, hfunded, ?_, hlaid,
        hshares⟩
      cases wrapped <;> exact hmain
    · rintro ⟨htransfers, stored, wrapped, main, shares, funded, rfl, hfunded, hmain, hlaid,
        hshares⟩
      refine ⟨(), htransfers, Call.runs_bind_ok_iff.2 ⟨stored.isSome, _, funded, rfl,
        runs_isPresent_iff.2 ⟨stored, rfl, rfl⟩, ?_⟩⟩
      refine Call.runs_bind_ok_iff.2 ⟨wrapped, funded, [], by simp, hfunded, ?_⟩
      refine Call.runs_lift_bind_ok_iff.2 ⟨main, by cases wrapped <;> exact hmain, ?_⟩
      refine Call.runs_lift_bind_ok_iff.2 ⟨plan, hlaid, ?_⟩
      exact Call.runs_lift_bind_ok_iff.2 ⟨shares, hshares, Call.runs_pure_iff.2 ⟨rfl, rfl⟩⟩

/-! ## Withdrawals -/

theorem runs_planFreeing_iff {amount : UInt64} {batches : List Batch} :
    Runs (client.planFreeing amount) exchanges (.ok batches) ↔
      (client.record.unallocated < amount ∧
        client.record.ensureRunning [.reconciles] = .ok () ∧
        ∃ projection steps, Runs (client.project none) exchanges (.ok projection) ∧
          freeingSteps projection amount = .ok steps ∧
          Batch.pack client.ceiling client.activeVenues steps = .ok batches) ∨
      (¬ client.record.unallocated < amount ∧ exchanges = [] ∧ batches = []) := by
  unfold planFreeing
  split
  · rename_i hshort
    simp only [hshort, true_and, not_true_eq_false, false_and, or_false]
    rw [Call.runs_lift_bind_ok_iff]
    constructor
    · rintro ⟨⟨⟩, hrunning, hrun⟩
      obtain ⟨projection, first, rest, rfl, hfirst, hrest⟩ := Call.runs_bind_ok_iff.1 hrun
      obtain ⟨steps, hsteps, hrest⟩ := Call.runs_lift_bind_ok_iff.1 hrest
      obtain ⟨rfl, hpack⟩ := Call.runs_lift_iff.1 hrest
      exact ⟨hrunning, projection, steps, by simpa using hfirst, hsteps, hpack⟩
    · rintro ⟨hrunning, projection, steps, hproject, hsteps, hpack⟩
      refine ⟨(), hrunning, Call.runs_bind_ok_iff.2
        ⟨projection, exchanges, [], by simp, hproject, ?_⟩⟩
      exact Call.runs_lift_bind_ok_iff.2 ⟨steps, hsteps, Call.runs_lift_iff.2 ⟨rfl, hpack⟩⟩
  · rename_i hshort
    simp [hshort]

/-- Without a wrapped account the payer's own is paid into, and created if it is not there. -/
theorem runs_destination_none_iff {account : Key} {setup : List Operation} :
    Runs (client.destination none) exchanges (.ok (account, setup)) ↔
      ∃ stored, exchanges = [⟨.account client.reserveAccount, .ok stored⟩] ∧
        account = client.reserveAccount ∧
        setup = if stored.isSome then [] else [.createAssociated client.record.denomination] := by
  unfold destination
  rw [Call.runs_bind_ok_iff]
  constructor
  · rintro ⟨present, first, rest, rfl, hfirst, hrest⟩
    obtain ⟨stored, rfl, rfl⟩ := runs_isPresent_iff.1 hfirst
    refine ⟨stored, ?_⟩
    cases stored with
    | none =>
      obtain ⟨rfl, hfound⟩ := Call.runs_pure_iff.1 hrest
      cases hfound
      exact ⟨rfl, rfl, rfl⟩
    | some stored =>
      obtain ⟨rfl, hfound⟩ := Call.runs_pure_iff.1 hrest
      cases hfound
      exact ⟨rfl, rfl, rfl⟩
  · rintro ⟨stored, rfl, rfl, rfl⟩
    refine ⟨stored.isSome, _, [], (List.append_nil _).symm,
      runs_isPresent_iff.2 ⟨stored, rfl, rfl⟩, ?_⟩
    cases stored <;> exact Call.runs_pure_iff.2 ⟨rfl, rfl⟩

/-- Everything that a withdrawal finds out before its batches are laid out. -/
theorem runs_planWithdraw_iff {pair : Keypair} {amount : UInt64} {plan : ScopedPlan} :
    Runs (client.planWithdraw pair amount) exchanges (.ok plan) ↔
      amount ≠ 0 ∧ client.ensureTransfers = .ok () ∧
      ∃ shares before wrapped account setup main freed funded found,
        client.sharesToBurn amount = .ok shares ∧
        exchanges = freed ++ (funded ++ found) ∧
        Runs (client.planFreeing amount) freed (.ok before) ∧
        Runs (client.wrapped? pair 0) funded (.ok wrapped) ∧
        Runs (client.destination wrapped) found (.ok (account, setup)) ∧
        Batch.behindRefresh client.ceiling .withdraw client.activeVenues
          [.withdraw shares client.shareAccount account] = .ok main ∧
        ScopedPlan.layOut client.ceiling before setup main wrapped = .ok plan := by
  unfold planWithdraw
  split
  · rename_i hzero
    simp only [hzero, ne_eq, not_true_eq_false, false_and, iff_false]
    intro hrun
    obtain ⟨_, _, _, _, hthrow, -⟩ := Call.runs_bind_ok_iff.1 hrun
    simpa using Call.runs_throw_iff.1 hthrow
  · rename_i hzero
    simp only [hzero, ne_eq, not_false_eq_true, true_and]
    rw [Call.runs_lift_bind_ok_iff]
    constructor
    · rintro ⟨⟨⟩, htransfers, hrun⟩
      obtain ⟨shares, hshares, hrun⟩ := Call.runs_lift_bind_ok_iff.1 hrun
      obtain ⟨before, freed, rest, rfl, hfreed, hrun⟩ := Call.runs_bind_ok_iff.1 hrun
      obtain ⟨wrapped, funded, rest, rfl, hfunded, hrun⟩ := Call.runs_bind_ok_iff.1 hrun
      obtain ⟨⟨account, setup⟩, found, rest, rfl, hfound, hrun⟩ := Call.runs_bind_ok_iff.1 hrun
      obtain ⟨main, hmain, hrun⟩ := Call.runs_lift_bind_ok_iff.1 hrun
      obtain ⟨rfl, hplan⟩ := Call.runs_lift_iff.1 hrun
      exact ⟨htransfers, shares, before, wrapped, account, setup, main, freed, funded, found, hshares,
        by simp, hfreed, hfunded, hfound, hmain, hplan⟩
    · rintro ⟨htransfers, shares, before, wrapped, account, setup, main, freed, funded, found, hshares,
        rfl, hfreed, hfunded, hfound, hmain, hplan⟩
      refine ⟨(), htransfers, Call.runs_lift_bind_ok_iff.2 ⟨shares, hshares, ?_⟩⟩
      refine Call.runs_bind_ok_iff.2 ⟨before, freed, _, rfl, hfreed, ?_⟩
      refine Call.runs_bind_ok_iff.2 ⟨wrapped, funded, found, rfl, hfunded, ?_⟩
      refine Call.runs_bind_ok_iff.2 ⟨(account, setup), found, [], by simp, hfound, ?_⟩
      exact Call.runs_lift_bind_ok_iff.2 ⟨main, hmain, Call.runs_lift_iff.2 ⟨rfl, hplan⟩⟩

end Client

end YieldVault
