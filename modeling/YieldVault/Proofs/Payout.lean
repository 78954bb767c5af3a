-- The law of payouts: a withdrawal burns shares that are priced at the vault's
-- recorded total, and is paid at a total that was refreshed on the way. Where the
-- total did not grow, what is at hand and what was freed covers the payout.
import YieldVault.Proofs.Freeing
import YieldVault.Proofs.Layouts
import YieldVault.Proofs.Plans

namespace YieldVault

open Call (Runs)

/-! ## Rates -/

namespace ExchangeRate

variable {total supply amount shares : UInt64}

theorem toShares_ofTotals_eq_ok :
    (ofTotals total supply).toShares amount .floor = .ok shares ↔
      shares.toNat = if total = 0 ∨ supply = 0 then amount.toNat
        else amount.toNat * supply.toNat / total.toNat := by
  unfold toShares ofTotals
  rw [mulDiv_eq_ok]
  split
  · simp [Rounding.quotient]
  · rename_i hsome
    rw [not_or] at hsome
    simp [Rounding.quotient, hsome.1]

theorem toReserve_ofTotals_eq_ok :
    (ofTotals total supply).toReserve shares .floor = .ok amount ↔
      amount.toNat = if total = 0 ∨ supply = 0 then shares.toNat
        else shares.toNat * total.toNat / supply.toNat := by
  unfold toReserve ofTotals
  rw [mulDiv_eq_ok]
  split
  · simp [Rounding.quotient]
  · rename_i hsome
    rw [not_or] at hsome
    simp [Rounding.quotient, hsome.2]

end ExchangeRate

/-! ## What a plan burns, frees and pays -/

/-- The shares that a batch burns, one entry for each withdrawal. -/
def Batch.burns (batch : Batch) : List UInt64 :=
  batch.operations.filterMap fun
    | .withdraw shares .. => some shares
    | _ => none

/-- What shares are redeemed for once the vault's total is refreshed. -/
def VaultRecord.payout (record : VaultRecord) (total shares : UInt64) : Except Error UInt64 :=
  (ExchangeRate.ofTotals total record.shareSupply).toReserve shares .floor

namespace ScopedPlan

def burned (plan : ScopedPlan) : List UInt64 := plan.main.flatMap Batch.burns

/-- What the reconciles ahead of the main batches take out of the venues. -/
def freed (plan : ScopedPlan) : Nat := ReconcileStep.freed (plan.before.flatMap Batch.reconciles)

/-- The reserve at hand and what the plan frees cover what its shares are redeemed for. -/
def Payable (plan : ScopedPlan) (record : VaultRecord) (total : UInt64) : Prop :=
  ∀ shares ∈ plan.burned, ∃ paid, record.payout total shares = .ok paid ∧
    paid.toNat ≤ record.unallocated.toNat + plan.freed

end ScopedPlan

/-- What the shares for an amount at one total of a vault are redeemed for at a later total. -/
def redeemed (total supply later amount : Nat) : Nat :=
  if supply = 0 then amount
  else (if total = 0 then amount else amount * supply / total) * later / supply

/-- Shares are never redeemed for more than they were priced at, unless the total grew. -/
theorem redeemed_le {total supply later amount : Nat} (hpos : 0 < later)
    (h : later ≤ total ∨ supply = 0) : redeemed total supply later amount ≤ amount := by
  unfold redeemed
  split
  · exact Nat.le_refl amount
  · rename_i hsupply
    have hle : later ≤ total := h.resolve_right hsupply
    rw [if_neg (by omega)]
    refine Nat.div_le_of_le_mul ?_
    calc amount * supply / total * later
        ≤ amount * supply / total * total := Nat.mul_le_mul_left _ hle
      _ ≤ amount * supply := Nat.div_mul_le_self _ _
      _ = supply * amount := Nat.mul_comm _ _

theorem Client.payout_eq_ok {client : Client} {amount later shares paid : UInt64}
    (hlater : later ≠ 0) (hshares : client.previewWithdraw amount = .ok shares) :
    client.record.payout later shares = .ok paid ↔
      paid.toNat = redeemed client.record.totalValue.toNat client.record.shareSupply.toNat
        later.toNat amount.toNat := by
  have hburned := ExchangeRate.toShares_ofTotals_eq_ok.1 hshares
  unfold VaultRecord.payout redeemed
  rw [ExchangeRate.toReserve_ofTotals_eq_ok, hburned]
  simp only [ne_eq, ← UInt64.toNat_inj, UInt64.toNat_zero] at hlater ⊢
  by_cases hsupply : client.record.shareSupply.toNat = 0
  · simp [hsupply]
  · simp [hsupply, hlater]

/-! ## The plan of a withdrawal -/

namespace Batch

theorem burns_refreshing (venues : List Venue) : (refreshing venues).burns = [] := by
  induction venues with
  | nil => rfl
  | cons v vs ih => exact ih

theorem burns_preamble (kind : BatchKind) (venues : List Venue) (operations : List Operation) :
    burns ⟨kind, preamble venues ++ operations, []⟩ = burns ⟨kind, operations, []⟩ := by
  induction venues with
  | nil => rfl
  | cons v vs ih => exact ih

/-- What stands behind a refresh burns what its operations burn. -/
theorem burns_behindRefresh {ceiling : Nat} {kind : BatchKind} {venues : List Venue}
    {operations : List Operation} {batches : List Batch}
    (h : behindRefresh ceiling kind venues operations = .ok batches) :
    batches.flatMap burns = burns ⟨kind, operations, []⟩ := by
  obtain ⟨ahead, beside, -, rfl, -, -⟩ := behindRefresh_eq_ok h
  simp [List.flatMap_map, burns_refreshing, burns_preamble]

end Batch

/-- What stands at the venues above their scaled targets. -/
def Projection.excess (p : Projection) (amount : UInt64) : Nat :=
  (Venue.all.map fun v => (p.actual.value v).toNat - p.scaled amount v).sum

theorem Projection.excess_le (p : Projection) (amount : UInt64) : p.excess amount ≤ p.actual.sum := by
  simp only [excess, AllocationSet.sum, Venue.all, List.map_cons, List.map_nil, List.sum_cons,
    List.sum_nil]
  omega

namespace Client

variable {client : Client} {exchanges : List Exchange} {projection : Projection}

/-- Steps that could be laid out are those of an amount that the vault has. -/
theorem le_total_of_freeingSteps {amount : UInt64} {steps : List ReconcileStep}
    (h : freeingSteps projection amount = .ok steps) :
    amount ≤ projection.total ∧ projection.target.denomination = projection.actual.denomination := by
  obtain ⟨rest, hrest, hsteps⟩ := Except.bind_eq_ok_iff.1 h
  obtain ⟨moves, hmoves, -⟩ := Except.bind_eq_ok_iff.1 hsteps
  have hsame := (AllocationSet.movements_eq_ok_iff.1 hmoves).1
  unfold Projection.afterWithdrawal at hrest
  split at hrest
  · rename_i hle
    obtain ⟨target, htarget, rfl⟩ := Except.map_eq_ok_iff.1 hrest
    obtain ⟨values, -, rfl⟩ := Except.map_eq_ok_iff.1 htarget
    exact ⟨hle, hsame⟩
  · cases hrest

/-- Steps that could be laid out leave each venue at its scaled target, or below. -/
theorem freedAt_of_freeingSteps {amount : UInt64} {steps : List ReconcileStep} (hpos : 0 < amount)
    (h : freeingSteps projection amount = .ok steps) (v : Venue) :
    ReconcileStep.freedAt steps v +
      min (projection.actual.value v).toNat (projection.scaled amount v) =
        (projection.actual.value v).toNat := by
  obtain ⟨hle, hden⟩ := le_total_of_freeingSteps h
  obtain ⟨steps', hsteps', hnodup, hmem⟩ :=
    freeingSteps_eq_ok hden (UInt64.lt_of_lt_of_le hpos hle) hle
  rw [h, Except.ok.injEq] at hsteps'
  subst hsteps'
  exact freedAt_freeingSteps hnodup hmem v

theorem freed_of_freeingSteps {amount : UInt64} {steps : List ReconcileStep} (hpos : 0 < amount)
    (h : freeingSteps projection amount = .ok steps) :
    ReconcileStep.freed steps = projection.excess amount := by
  have hfreed : ∀ v, ReconcileStep.freedAt steps v =
      (projection.actual.value v).toNat - projection.scaled amount v := by
    intro v
    have hv := freedAt_of_freeingSteps hpos h v
    omega
  rw [ReconcileStep.freed_eq_sum, Projection.excess, funext hfreed]

theorem sharesToBurn_eq_ok {amount shares : UInt64} (h : client.sharesToBurn amount = .ok shares) :
    client.previewWithdraw amount = .ok shares ∧ shares ≠ 0 := by
  obtain ⟨found, hfound, hshares⟩ := Except.bind_eq_ok_iff.1 h
  split at hshares
  · cases hshares
  · cases hshares
    exact ⟨hfound, ‹_›⟩

/-- The simulation of a call, its first question, came to a projection. -/
def Simulated (client : Client) (exchanges : List Exchange) (projection : Projection) : Prop :=
  ∃ asked rest, exchanges = asked ++ rest ∧ Runs (client.project none) asked (.ok projection)

/-- What the plan of a withdrawal burns, and what it frees where the reserve at hand is short. -/
theorem burned_and_freed_of_planWithdraw {pair : Keypair} {amount : UInt64} {plan : ScopedPlan}
    (hplan : Runs (client.planWithdraw pair amount) exchanges (.ok plan))
    (hshort : client.record.unallocated < amount)
    (hsimulated : client.Simulated exchanges projection) :
    ∃ shares steps, client.previewWithdraw amount = .ok shares ∧ plan.burned = [shares] ∧
      freeingSteps projection amount = .ok steps ∧ plan.freed = ReconcileStep.freed steps := by
  obtain ⟨-, -, shares, before, wrapped, account, setup, main, first, funded, found, hshares, rfl,
    hfreeing, -, -, hmain, hlaid⟩ := runs_planWithdraw_iff.1 hplan
  obtain ⟨hbefore, hplanmain, -, -⟩ := ScopedPlan.layOut_eq_ok hlaid
  rcases runs_planFreeing_iff.1 hfreeing with ⟨-, -, p, steps, hproject, hsteps, hpack⟩ | ⟨hno, -⟩
  · obtain ⟨asked, rest, hexchanges, hasked⟩ := hsimulated
    obtain ⟨-, -, hsame⟩ := Dialogue.runs_unique hproject hasked hexchanges
    cases hsame
    refine ⟨shares, steps, (sharesToBurn_eq_ok hshares).1, ?_, hsteps, ?_⟩
    · rw [ScopedPlan.burned, hplanmain, Batch.burns_behindRefresh hmain]
      rfl
    · rw [ScopedPlan.freed, hbefore, Batch.reconciles_pack hpack]
  · exact absurd hshort hno

end Client

/-! ## The law -/

theorem Client.payable_iff {client : Client} {plan : ScopedPlan} {amount later shares : UInt64}
    (hburned : plan.burned = [shares]) (hshares : client.previewWithdraw amount = .ok shares)
    (hlater : later ≠ 0)
    (hword : client.record.unallocated.toNat + plan.freed < UInt64.size) :
    plan.Payable client.record later ↔
      redeemed client.record.totalValue.toNat client.record.shareSupply.toNat later.toNat
        amount.toNat ≤ client.record.unallocated.toNat + plan.freed := by
  unfold ScopedPlan.Payable
  rw [hburned]
  simp only [List.mem_singleton, forall_eq, payout_eq_ok hlater hshares]
  constructor
  · rintro ⟨paid, hpaid, hle⟩
    rwa [hpaid] at hle
  · intro hle
    have hpaid := UInt64.toNat_ofNat_of_lt' (Nat.lt_of_le_of_lt hle hword)
    exact ⟨_, hpaid, by rwa [hpaid]⟩

/-- A withdrawal that the reserve at hand does not cover frees the amount, and is paid if what its
shares are redeemed for at the refreshed total is no more than what is at hand and was freed. It
always is where the total did not grow since the vault was read. -/
theorem a_withdrawal_is_paid_unless_its_shares_grew_past_what_was_freed {client : Client}
    {pair : Keypair} {amount : UInt64} {exchanges : List Exchange} {plan : ScopedPlan}
    {projection : Projection}
    (hplan : Runs (client.planWithdraw pair amount) exchanges (.ok plan))
    (hshort : client.record.unallocated < amount)
    (hsimulated : client.Simulated exchanges projection)
    (hcover : client.record.unallocated.toNat + projection.actual.sum = projection.total.toNat)
    (htarget : projection.target.sum ≤ projection.total.toNat) :
    ∃ shares, client.previewWithdraw amount = .ok shares ∧ plan.burned = [shares] ∧
      plan.freed = projection.excess amount ∧
      amount.toNat ≤ client.record.unallocated.toNat + plan.freed ∧
      (plan.Payable client.record projection.total ↔
        redeemed client.record.totalValue.toNat client.record.shareSupply.toNat
          projection.total.toNat amount.toNat ≤
            client.record.unallocated.toNat + projection.excess amount) ∧
      (projection.total ≤ client.record.totalValue ∨ client.record.shareSupply = 0 →
        plan.Payable client.record projection.total) := by
  have hpos : 0 < amount := UInt64.lt_of_le_of_lt UInt64.zero_le hshort
  obtain ⟨shares, steps, hshares, hburned, hsteps, hfreed⟩ :=
    Client.burned_and_freed_of_planWithdraw hplan hshort hsimulated
  have hle : amount ≤ projection.total := (Client.le_total_of_freeingSteps hsteps).1
  have htotal : projection.total ≠ 0 := by
    rintro hzero
    rw [hzero] at hle
    exact absurd (UInt64.lt_of_lt_of_le hpos hle) (by simp)
  have hcovered : amount.toNat ≤ client.record.unallocated.toNat + plan.freed := by
    rw [hfreed]
    exact amount_le_freed hle hcover.symm.le htarget (Client.freedAt_of_freeingSteps hpos hsteps)
  have hexcess : plan.freed = projection.excess amount := by
    rw [hfreed, Client.freed_of_freeingSteps hpos hsteps]
  have hword : client.record.unallocated.toNat + plan.freed < UInt64.size := by
    have hle := projection.excess_le amount
    have hlt := projection.total.toNat_lt
    simp only [UInt64.size]
    omega
  have hpayable := Client.payable_iff hburned hshares htotal hword
  refine ⟨shares, hshares, hburned, hexcess, hcovered, hexcess ▸ hpayable, fun hgrown => ?_⟩
  refine hpayable.2 (Nat.le_trans (redeemed_le ?_ ?_) hcovered)
  · rw [Nat.pos_iff_ne_zero, ne_eq, ← UInt64.toNat_zero, UInt64.toNat_inj]
    exact htotal
  · rcases hgrown with hgrown | hempty
    · exact .inl (UInt64.le_iff_toNat_le.1 hgrown)
    · exact .inr (by rw [hempty, UInt64.toNat_zero])

/-! ## A vault that earned on the way

A vault of 1000 units and as many shares keeps all it has at one venue. Should it have come to 1100
units by the time of a withdrawal of 500, the withdrawal frees 500, but burns 500 shares, which are
redeemed for 550. -/

namespace OneVenue

def account (total : UInt64) : VaultAccount where
  version := Vector.replicate 3 0
  owner := default
  authority := default
  authoritySeed := default
  authorityBump := 0
  reserves := default
  reserveToken := default
  holdings := default
  shareMint := default
  reserveMint := default
  feeReceiver := default
  referralFeeReceiver := default
  haltFlags := 0
  sourceFlags := Venue.solend.bit
  value := .at total 0
  target := ⟨.at total 0, .at 0 0, .at 0 0⟩
  config := ⟨0, 0, 0, 0, 0, .calculator, .maxYield, Vector.replicate 3 0⟩
  actual := ⟨.at total 0, .at 0 0, .at 0 0⟩
  reserved := Vector.replicate 28 0

def handle : Handle where
  adapter := .solend ⟨default, default, default, default, default, default, default⟩
  reserve := default
  holding := default

/-- A client that read the vault when it had come to 1000 units. -/
def client : Client where
  program := default
  vault := default
  payer := default
  handles := ⟨some handle, none, none⟩
  ceiling := 6
  record := ⟨default, 1, account 1000, 1000, 0⟩

def pair : Keypair := ⟨default, default⟩

def projection (total : UInt64) : Projection :=
  ⟨(account total).targetSet, (account total).actualSet, total⟩

/-- What the client asks, and is told when the vault has come to some total. -/
def exchanges (total : UInt64) : List Exchange :=
  [⟨.simulate [handle.refresh client.encoder.keys, .consolidate client.encoder.keys,
      .rebalance client.encoder.keys client.encoder.reserves none] [default],
    .ok ⟨none, [], [some (account total).encode]⟩⟩,
   ⟨.account client.reserveAccount, .ok (some ⟨1, [], default⟩)⟩]

def plan : ScopedPlan where
  before := [⟨.reconcile, [.refresh .solend, .reconcile ⟨.solend, 500⟩], []⟩]
  setup := none
  main := [⟨.withdraw, [.refresh .solend, .consolidate,
    .withdraw 500 client.shareAccount client.reserveAccount], []⟩]
  scope := none

theorem runs_project (total : UInt64) :
    Runs (client.project none) ((exchanges total).take 1) (.ok (projection total)) :=
  Client.runs_project_iff.2 ⟨_, _, _, [], account total, rfl, rfl, rfl, rfl,
    by simpa using (account total).decode_encode client.record.address [], rfl⟩

theorem simulated (total : UInt64) : client.Simulated (exchanges total) (projection total) :=
  ⟨_, _, rfl, runs_project total⟩

theorem runs_planWithdraw {total : UInt64}
    (h : Client.freeingSteps (projection total) 500 = .ok [⟨.solend, 500⟩]) :
    Runs (client.planWithdraw pair 500) (exchanges total) (.ok plan) := by
  have hmain : Batch.behindRefresh client.ceiling .withdraw client.activeVenues
      [.withdraw 500 client.shareAccount client.reserveAccount] = .ok plan.main :=
    Batch.behindRefresh_of_room (by decide) (fun _ => rfl) .withdraw
  have hpack : Batch.pack 6 [.solend] [⟨.solend, 500⟩] = .ok plan.before := rfl
  have hfreeing : Runs (client.planFreeing 500) ((exchanges total).take 1) (.ok plan.before) := by
    rw [Client.runs_planFreeing_iff]
    exact .inl ⟨by decide, rfl, projection total, _, runs_project total, h, hpack⟩
  have hwrapped : Runs (client.wrapped? pair 0) [] (.ok none) := by
    rw [Client.wrapped?, if_neg (by decide)]
    exact Call.runs_pure_iff.2 ⟨rfl, rfl⟩
  have hdestination : Runs (client.destination none) ((exchanges total).drop 1)
      (.ok (client.reserveAccount, [])) := by
    rw [Client.runs_destination_none_iff]
    exact ⟨_, rfl, rfl, rfl⟩
  exact Client.runs_planWithdraw_iff.2 ⟨by decide, rfl, 500, plan.before, none,
    client.reserveAccount, [], plan.main, (exchanges total).take 1, [], (exchanges total).drop 1,
    rfl, rfl, hfreeing, hwrapped, hdestination, hmain, rfl⟩

theorem freeingSteps_of_the_recorded_total :
    Client.freeingSteps (projection 1000) 500 = .ok [⟨.solend, 500⟩] := by
  decide +kernel

theorem freeingSteps_of_a_grown_total :
    Client.freeingSteps (projection 1100) 500 = .ok [⟨.solend, 500⟩] := by
  decide +kernel

/-- Where the vault did not grow, the withdrawal is paid. -/
theorem a_withdrawal_at_the_recorded_total :
    Runs (client.planWithdraw pair 500) (exchanges 1000) (.ok plan) ∧
    client.record.unallocated < 500 ∧ client.Simulated (exchanges 1000) (projection 1000) ∧
    client.record.unallocated.toNat + (projection 1000).actual.sum =
      (projection 1000).total.toNat ∧
    (projection 1000).target.sum ≤ (projection 1000).total.toNat ∧
    ∃ shares, client.previewWithdraw 500 = .ok shares ∧ plan.burned = [shares] ∧
      plan.freed = (projection 1000).excess 500 ∧
      (500 : UInt64).toNat ≤ client.record.unallocated.toNat + plan.freed ∧
      (plan.Payable client.record (projection 1000).total ↔
        redeemed client.record.totalValue.toNat client.record.shareSupply.toNat
          (projection 1000).total.toNat (500 : UInt64).toNat ≤
            client.record.unallocated.toNat + (projection 1000).excess 500) ∧
      ((projection 1000).total ≤ client.record.totalValue ∨ client.record.shareSupply = 0 →
        plan.Payable client.record (projection 1000).total) :=
  have hplan := runs_planWithdraw freeingSteps_of_the_recorded_total
  have hsimulated := simulated 1000
  ⟨hplan, by decide, hsimulated, by decide, by decide,
    a_withdrawal_is_paid_unless_its_shares_grew_past_what_was_freed hplan (by decide) hsimulated
      (by decide) (by decide)⟩

/-- Where it grew, the same plan burns shares that are redeemed for more than was freed. -/
theorem a_withdrawal_at_a_grown_total_is_not_paid :
    Runs (client.planWithdraw pair 500) (exchanges 1100) (.ok plan) ∧
    client.record.unallocated < 500 ∧ client.Simulated (exchanges 1100) (projection 1100) ∧
    client.record.unallocated.toNat + (projection 1100).actual.sum =
      (projection 1100).total.toNat ∧
    (projection 1100).target.sum ≤ (projection 1100).total.toNat ∧
    plan.burned = [500] ∧ client.record.payout (projection 1100).total 500 = .ok 550 ∧
    client.record.unallocated.toNat + plan.freed = 500 ∧
    ¬ plan.Payable client.record (projection 1100).total := by
  have hburned : plan.burned = [500] := rfl
  have hpayout : client.record.payout (projection 1100).total 500 = .ok 550 := by decide
  have hfreed : client.record.unallocated.toNat + plan.freed = 500 := rfl
  refine ⟨runs_planWithdraw freeingSteps_of_a_grown_total, by decide, simulated 1100, by decide,
    by decide, hburned, hpayout, hfreed, ?_⟩
  intro hpayable
  obtain ⟨paid, hpaid, hle⟩ := hpayable 500 (by simp [hburned])
  rw [hpayout, Except.ok.injEq] at hpaid
  subst hpaid
  rw [hfreed] at hle
  exact absurd hle (by decide)

end OneVenue

end YieldVault
