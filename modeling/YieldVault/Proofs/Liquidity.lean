-- The law of liquidity: moving the largest withdrawals first is never worse for
-- the reserve than any other order, and the reserve never falls below both what
-- it is at the start and what it is at the end.
import YieldVault.Proofs.Movements
import YieldVault.Proofs.Packing

namespace YieldVault

namespace Movement

/-- An order of movements by ascending delta. Which of two equal deltas comes first is left
open. -/
structure Ascending (order movements : List Movement) : Prop where
  perm : order.Perm movements
  ascending : order.Pairwise fun a b => a.delta ≤ b.delta

/-- The reserve falls below zero at some step of an order. -/
def RunsDry (reserve : Int) (order : List Movement) : Prop :=
  ∃ done, done <+: order ∧ reserveAfter reserve done < 0

theorem inOrder_isAscending (movements : List Movement) : Ascending (inOrder movements) movements :=
  ⟨inOrder_perm movements, inOrder_ascending movements⟩

/-- A start of an ascending order takes out no more than nothing, or no more than the whole. -/
theorem total_le_of_ascending {done rest : List Movement}
    (h : (done ++ rest).Pairwise fun a b => a.delta ≤ b.delta) :
    total done ≤ 0 ∨ total done ≤ total (done ++ rest) := by
  obtain ⟨-, -, hcross⟩ := List.pairwise_append.1 h
  by_cases hdown : ∀ m ∈ done, m.delta ≤ 0
  · exact Or.inl (total_nonpos hdown)
  · -- a deposit is done already, so only deposits are left
    obtain ⟨m, hm, hpos⟩ : ∃ m ∈ done, 0 < m.delta := by simpa using hdown
    have hup : 0 ≤ total rest := total_nonneg fun x hx => by
      have := hcross m hm x hx
      omega
    right
    rw [total_append]
    omega

theorem min_le_reserveAfter {order movements done : List Movement} (reserve : Int)
    (h : Ascending order movements) (hdone : done <+: order) :
    min reserve (reserveAfter reserve movements) ≤ reserveAfter reserve done := by
  obtain ⟨rest, rfl⟩ := hdone
  have htotal := total_perm h.perm
  simp only [reserveAfter_eq]
  rcases total_le_of_ascending h.ascending with hlow | hlow <;> omega

theorem reserveAfter_nonneg {order movements done : List Movement} {reserve : Nat}
    (h : Ascending order movements) (hcover : total movements ≤ reserve) (hdone : done <+: order) :
    0 ≤ reserveAfter reserve done := by
  have hmin := min_le_reserveAfter reserve h hdone
  rw [reserveAfter_eq (reserve : Int) movements] at hmin
  omega

/-- The batches that were sent by some time have carried out a start of the order. -/
theorem take_of_pack {order : List Movement} {step : Movement → ReconcileStep} {ceiling : Nat}
    {refreshable : List Venue} {batches : List Batch}
    (h : Batch.pack ceiling refreshable (order.map step) = .ok batches) (k : Nat) :
    ∃ n, (batches.take k).flatMap Batch.reconciles = (order.take n).map step := by
  have hall := Batch.reconciles_pack h
  rw [← List.take_append_drop k batches, List.flatMap_append] at hall
  refine ⟨((batches.take k).flatMap Batch.reconciles).length, ?_⟩
  rw [List.map_take, ← hall, List.take_left]

/-- The reserve covers the movements between two allocations where it covers what the target is
above the actual values. -/
theorem total_le_iff {target actual : AllocationSet} {movements : List Movement}
    (h : target.movements actual = .ok movements) (reserve : Nat) :
    total movements ≤ reserve ↔ target.sum ≤ actual.sum + reserve := by
  rw [AllocationSet.total_movements h]
  omega

end Movement

open Movement

/-! ## The law -/

/-- The planned order is ascending. In any ascending order the reserve stays above the lesser of
its first and its last value. So it is never negative where it covers the movements in all, also
between the batches that the order is cut into; and where it runs dry, it does so in every
order. -/
theorem an_ascending_order_keeps_the_reserve (movements : List Movement) (reserve : Nat) :
    Ascending (inOrder movements) movements ∧
    (∀ target actual : AllocationSet, target.movements actual = .ok movements →
      (total movements ≤ reserve ↔ target.sum ≤ actual.sum + reserve)) ∧
    ∀ order, Ascending order movements →
      (∀ done, done <+: order →
        min (reserve : Int) (reserve - total movements) ≤ reserve - total done) ∧
      (total movements ≤ reserve →
        ¬ RunsDry reserve order ∧
        ∀ (step : Movement → ReconcileStep) ceiling refreshable batches,
          Batch.pack ceiling refreshable (order.map step) = .ok batches →
          batches.flatMap Batch.reconciles = order.map step ∧
          ∀ k, ∃ n, (batches.take k).flatMap Batch.reconciles = (order.take n).map step ∧
            0 ≤ reserveAfter reserve (order.take n)) ∧
      (RunsDry reserve order → ∀ other, other.Perm movements → RunsDry reserve other) := by
  refine ⟨inOrder_isAscending movements, fun target actual h => total_le_iff h reserve,
    fun order horder => ⟨?_, ?_, ?_⟩⟩
  · intro done hdone
    have hmin := min_le_reserveAfter reserve horder hdone
    rwa [reserveAfter_eq, reserveAfter_eq] at hmin
  · intro hcover
    constructor
    · rintro ⟨done, hdone, hneg⟩
      have := reserveAfter_nonneg horder hcover hdone
      omega
    · intro step ceiling refreshable batches hpack
      refine ⟨Batch.reconciles_pack hpack, fun k => ?_⟩
      obtain ⟨n, hn⟩ := take_of_pack hpack k
      exact ⟨n, hn, reserveAfter_nonneg horder hcover (List.take_prefix n order)⟩
  · -- an order that runs dry on the way is dry at its end, as every other one is
    rintro ⟨done, hdone, hneg⟩ other hother
    refine ⟨other, List.prefix_refl other, ?_⟩
    have hmin := min_le_reserveAfter reserve horder hdone
    rw [reserveAfter_eq, total_perm hother, ← reserveAfter_eq]
    omega

end YieldVault
