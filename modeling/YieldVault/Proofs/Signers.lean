-- The law of signers: who must sign a planned batch is the payer and whom the batch
-- lists, and the keypairs of these are handed over with it.
import YieldVault.Proofs.Shapes
import YieldVault.Rpc.Node

namespace YieldVault

open Dialogue (Runs)

/-! ## Operations -/

/-- Who must sign an operation, beside the payer. -/
def Operation.cosigners : Operation → List Key
  | .wrap account _ => [account]
  | _ => []

namespace Handle

variable (h : Handle) (keys : VaultKeys)

theorem signers_refresh : (h.refresh keys).signers = [] := by
  obtain ⟨adapter, reserve, holding⟩ := h
  cases adapter with
  | port w =>
    cases horacle : w.oracle <;>
      simp [refresh, refreshAccounts, Instruction.named, Instruction.signers, AccountMeta.read,
        AccountMeta.write, horacle]
  | _ => rfl

theorem signers_reconcile (option : UInt64) : (h.reconcile keys option).signers = [] := by
  obtain ⟨adapter, reserve, holding⟩ := h
  cases adapter <;> rfl

end Handle

theorem Instruction.signers_rebalance (keys : VaultKeys) (reserves : PerVenue Key)
    (weights : Option Weights) : (rebalance keys reserves weights).signers = [] := by
  rfl

namespace Encoder

variable {encoder : Encoder} {instructions part : List Instruction}

/-- The payer signs everything, and beside him only a wrapped account that is created. -/
theorem mem_signers_operation {op : Operation} (h : encoder.operation op = .ok part) (k : Key) :
    k ∈ encoder.payer :: part.flatMap Instruction.signers ↔ k ∈ encoder.payer :: op.cosigners := by
  cases op with
  | refresh v =>
    obtain ⟨handle, -, rfl⟩ := Except.map_eq_ok_iff.1 h
    simp [Handle.signers_refresh, Operation.cosigners]
  | reconcile step =>
    obtain ⟨handle, -, rfl⟩ := Except.map_eq_ok_iff.1 h
    simp [Handle.signers_reconcile, Operation.cosigners]
  | rebalance weights =>
    cases h
    simp [Instruction.signers_rebalance, Operation.cosigners]
  | wrap account lamports =>
    cases h
    simp [Instruction.createAccount, Instruction.initializeHolding, Instruction.signers,
      AccountMeta.signWrite, AccountMeta.write, AccountMeta.read, Operation.cosigners]
  | _ =>
    cases h
    simp [Instruction.consolidate, Instruction.deposit, Instruction.withdraw,
      Instruction.createAssociated, Instruction.closeHolding, Instruction.named,
      Instruction.signers, AccountMeta.signWrite, AccountMeta.sign, AccountMeta.write,
      AccountMeta.read, Operation.cosigners]

theorem mem_signers_operations {ops : List Operation}
    (h : encoder.operations ops = .ok instructions) (k : Key) :
    k ∈ encoder.payer :: instructions.flatMap Instruction.signers ↔
      k ∈ encoder.payer :: ops.flatMap Operation.cosigners := by
  induction ops generalizing instructions with
  | nil =>
    cases h
    rfl
  | cons op rest ih =>
    obtain ⟨part, others, hpart, hothers, rfl⟩ := operations_cons_iff.1 h
    have hfirst := mem_signers_operation hpart k
    have hrest := ih hothers
    simp only [List.flatMap_append, List.flatMap_cons, List.mem_cons, List.mem_append]
      at hfirst hrest ⊢
    rw [or_or_distrib_left, hfirst, hrest, ← or_or_distrib_left]

end Encoder

/-! ## Batches -/

/-- A planned batch lists just those who must sign its operations beside the payer. -/
theorem Client.Lays.signers_eq {client : Client} {batch : Batch} (h : client.Lays batch) :
    batch.signers = batch.operations.flatMap Operation.cosigners := by
  have hnone : ∀ ops : List Operation, (∀ op ∈ ops, op.cosigners = []) →
      ops.flatMap Operation.cosigners = [] := fun ops hops => List.flatMap_eq_nil_iff.2 hops
  cases h with
  | moving _ _ hunsigned hops =>
    rw [hunsigned, hnone]
    intro op hop
    rcases hops op hop with ⟨v, rfl⟩ | ⟨step, rfl⟩ <;> rfl
  | committing _ hunsigned hops =>
    rw [hunsigned, hnone]
    intro op hop
    rcases hops op hop with ⟨v, rfl⟩ | rfl | rfl <;> rfl
  | paying htransfer _ _ hunsigned hops =>
    rw [hunsigned, hnone]
    intro op hop
    rcases hops op hop with ⟨v, rfl⟩ | rfl | rfl
    · rfl
    · rfl
    · cases op <;> first | rfl | cases htransfer
  | @opening created wrapped hcreated =>
    rw [List.flatMap_append, hnone created, List.nil_append]
    · cases wrapped <;> rfl
    · intro op hop
      obtain ⟨mint, rfl⟩ := hcreated op hop
      rfl
  | closing w => rfl

namespace Batch

variable {batch : Batch} {encoder : Encoder} {keyring : List Keypair}

theorem mem_of_keypairOf {signer : Key} {pair : Keypair} (h : keypairOf keyring signer = .ok pair) :
    pair ∈ keyring ∧ pair.address = signer := by
  unfold keypairOf at h
  split at h
  · rename_i found hfound
    cases h
    exact ⟨List.mem_of_find?_eq_some hfound, by simpa using List.find?_some hfound⟩
  · cases h

theorem addresses_of_keypairs {signers : List Key} {pairs : List Keypair}
    (h : signers.mapM (keypairOf keyring) = .ok pairs) :
    pairs.map (·.address) = signers ∧ ∀ pair ∈ pairs, pair ∈ keyring := by
  induction Except.mapM_eq_ok_iff.1 h with
  | nil => simp
  | cons hpair hothers ih =>
    obtain ⟨hknown, rfl⟩ := mem_of_keypairOf hpair
    obtain ⟨haddresses, hall⟩ := ih (Except.mapM_eq_ok_iff.2 hothers)
    refine ⟨by rw [List.map_cons, haddresses], ?_⟩
    rw [List.forall_mem_cons]
    exact ⟨hknown, hall⟩

end Batch

/-- A transaction can be signed if it is by just those who must sign it. -/
theorem NodeClient.sign_eq_ok_iff {payer : Key} {instructions : List Instruction}
    {signers : List Key} :
    sign payer instructions signers = .ok () ↔
      ∀ k, k ∈ requiredSigners payer instructions ↔ k ∈ payer :: signers := by
  have hpayer : payer ∈ requiredSigners payer instructions := List.mem_cons_self
  have hwanted : signers.all (requiredSigners payer instructions).contains ↔
      ∀ k ∈ signers, k ∈ requiredSigners payer instructions := by
    simp [List.all_eq_true]
  have hcovered : (requiredSigners payer instructions).all (payer :: signers).contains ↔
      ∀ k ∈ requiredSigners payer instructions, k ∈ payer :: signers := by
    simp [List.all_eq_true]
  constructor
  · intro h k
    by_cases hsigners : signers.all (requiredSigners payer instructions).contains
    · by_cases hrequired : (requiredSigners payer instructions).all (payer :: signers).contains
      · refine ⟨hcovered.1 hrequired k, fun hk => ?_⟩
        rcases List.mem_cons.1 hk with rfl | hk
        · exact hpayer
        · exact hwanted.1 hsigners k hk
      · simp [sign, hsigners, hrequired] at h
    · simp [sign, hsigners] at h
  · intro h
    have hsigners := hwanted.2 fun k hk => (h k).2 (List.mem_cons_of_mem _ hk)
    have hrequired := hcovered.2 fun k hk => (h k).1 hk
    simp [sign, hsigners, hrequired]

/-! ## The law -/

/-- What is handed to the ledger for a batch of a plan. -/
structure Batch.SignedBy (batch : Batch) (payer : Key) (keyring : List Keypair)
    (instructions : List Instruction) (pairs : List Keypair) : Prop where
  /-- Who must sign beside the payer is whom the batch lists. -/
  required : ∀ k, k ∈ NodeClient.requiredSigners payer instructions ↔ k ∈ payer :: batch.signers
  /-- Their keypairs are handed over, in order, -/
  addresses : pairs.map (·.address) = batch.signers
  /-- and are those that the call has at hand. -/
  held : ∀ pair ∈ pairs, pair ∈ keyring
  /-- So the transaction can be signed. -/
  signed : NodeClient.sign payer instructions (pairs.map (·.address)) = .ok ()

theorem Client.Lays.signedBy {client : Client} {batch : Batch} {keyring : List Keypair}
    {instructions : List Instruction} {pairs : List Keypair} (h : client.Lays batch)
    (hready : batch.ready client.encoder keyring = .ok (instructions, pairs)) :
    batch.SignedBy client.payer keyring instructions pairs := by
  obtain ⟨_, hencoded, hrest⟩ := Except.bind_eq_ok_iff.1 hready
  obtain ⟨_, hpairs, hboth⟩ := Except.bind_eq_ok_iff.1 hrest
  cases hboth
  obtain ⟨haddresses, hheld⟩ := Batch.addresses_of_keypairs hpairs
  have hrequired : ∀ k, k ∈ NodeClient.requiredSigners client.payer instructions ↔
      k ∈ client.payer :: batch.signers := by
    intro k
    rw [h.signers_eq]
    exact Encoder.mem_signers_operations hencoded k
  refine ⟨hrequired, haddresses, hheld, ?_⟩
  rw [haddresses]
  exact NodeClient.sign_eq_ok_iff.2 hrequired

/-- Every batch of a plan can be handed to the ledger, and is signed by just those who must sign its
instructions: by the payer and by whom the batch lists, with their keypairs in order. Nothing else is
submitted. -/
theorem every_planned_batch_can_be_signed {client : Client} {call : VaultCall}
    {asked : List Exchange} {plan : ScopedPlan}
    (hplan : Call.Runs (call.plan client) asked (.ok plan)) :
    (∀ batch ∈ plan.planned ++ plan.closing, ∃ instructions pairs,
      batch.ready client.encoder plan.keyring = .ok (instructions, pairs) ∧
      batch.SignedBy client.payer plan.keyring instructions pairs) ∧
    ∀ exchanges outcome instructions pairs reply,
      Runs (plan.send client.encoder) exchanges outcome →
      (⟨.submit instructions pairs, reply⟩ : Exchange) ∈ exchanges →
      ∃ batch ∈ plan.planned ++ plan.closing,
        batch.ready client.encoder plan.keyring = .ok (instructions, pairs) ∧
        batch.SignedBy client.payer plan.keyring instructions pairs := by
  have hsendable := (VaultCall.laidOut_of_runs_plan hplan).sendable
  have hlays := VaultCall.lays_of_runs_plan hplan
  constructor
  · intro batch hbatch
    obtain ⟨⟨instructions, pairs⟩, hready⟩ := hsendable batch hbatch
    exact ⟨instructions, pairs, hready, (hlays batch hbatch).signedBy hready⟩
  · intro exchanges outcome instructions pairs reply hrun hmem
    obtain ⟨batch, hbatch, _, _, hready, hsubmit⟩ :=
      ScopedPlan.exists_batch_of_runs_send hsendable hrun _ hmem
    cases hsubmit
    exact ⟨batch, hbatch, hready, (hlays batch hbatch).signedBy hready⟩

namespace NativeVault

/-- The same client under a ceiling that leaves room for a setup of two accounts. -/
def roomy : Client := { client with ceiling := 6 }

/-- A pair for a wrapped account that is not the payer's own. -/
def fresh : Keypair := ⟨default, .ofNat 1⟩

def freshAccount : WrappedAccount := ⟨fresh, 2039780⟩

/-- A deposit by a payer who has no account for shares yet. -/
def freshPlan : ScopedPlan where
  before := []
  setup := some (ScopedPlan.opening freshAccount [.createAssociated account.shareMint])
  main := [⟨.deposit, [.refresh .solend, .consolidate,
    .deposit 500 fresh.address roomy.shareAccount], []⟩]
  scope := some (freshAccount, ScopedPlan.releasing freshAccount)

def freshAsked : List Exchange :=
  [⟨.account roomy.shareAccount, .ok none⟩, ⟨.rent Token.accountWidth, .ok 2039280⟩]

theorem runs_freshPlan :
    Call.Runs ((VaultCall.deposit fresh 500 none).plan roomy) freshAsked (.ok freshPlan) := by
  have hmain : Batch.behindRefresh roomy.ceiling .deposit roomy.activeVenues
      [.deposit 500 fresh.address roomy.shareAccount] = .ok freshPlan.main :=
    Batch.behindRefresh_of_room (by decide) (fun _ => rfl) .deposit
  have hwrapped : Call.Runs (roomy.wrapped? fresh 500) (freshAsked.drop 1)
      (.ok (some freshAccount)) :=
    (Client.runs_wrapped?_iff rfl).2 ⟨2039280, freshAccount, rfl, rfl, rfl⟩
  exact Client.runs_planDeposit_iff.2 ⟨by decide, rfl, none, some freshAccount, freshPlan.main, 500,
    freshAsked.drop 1, rfl, hwrapped, hmain, rfl, rfl⟩

theorem a_deposit_through_a_fresh_account_can_be_signed :
    Call.Runs ((VaultCall.deposit fresh 500 none).plan roomy) freshAsked (.ok freshPlan) ∧
    fresh.address ≠ roomy.payer ∧
    (∀ batch ∈ freshPlan.planned ++ freshPlan.closing, ∃ instructions pairs,
      batch.ready roomy.encoder freshPlan.keyring = .ok (instructions, pairs) ∧
      batch.SignedBy roomy.payer freshPlan.keyring instructions pairs) ∧
    ∀ exchanges outcome instructions pairs reply,
      Runs (freshPlan.send roomy.encoder) exchanges outcome →
      (⟨.submit instructions pairs, reply⟩ : Exchange) ∈ exchanges →
      ∃ batch ∈ freshPlan.planned ++ freshPlan.closing,
        batch.ready roomy.encoder freshPlan.keyring = .ok (instructions, pairs) ∧
        batch.SignedBy roomy.payer freshPlan.keyring instructions pairs :=
  ⟨runs_freshPlan, by decide, every_planned_batch_can_be_signed runs_freshPlan⟩

end NativeVault

end YieldVault
