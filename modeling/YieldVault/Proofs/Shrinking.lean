-- The law of shrinking: with an amount gone from the vault, each target shrinks in
-- proportion to the total. Rounding takes less than one unit from each of them, and
-- no more than one if the amount leaves in two withdrawals.
import Mathlib.Tactic.Ring
import YieldVault.Proofs.Freeing

namespace YieldVault

/-! ## Parts of a total -/

/-- Rounding down takes less than one unit from each part. -/
theorem sum_mul_add_length_le {α : Type} (parts : List α) (f : α → Nat) (n : Nat) {d : Nat}
    (hd : 0 < d) :
    (parts.map f).sum * n + parts.length ≤
      ((parts.map fun x => f x * n / d).sum + parts.length) * d := by
  induction parts with
  | nil => simp
  | cons x xs ih =>
    have hx : f x * n < f x * n / d * d + d := Nat.lt_div_mul_add hd
    simp only [List.map_cons, List.sum_cons, List.length_cons, Nat.add_mul, Nat.one_mul] at ih ⊢
    omega

theorem scaled_twice_le (part total last : Nat) {left : Nat} (hleft : 0 < left) :
    part * left / total * last / left ≤ part * last / total := by
  have hfirst : part * left / total * last ≤ part * left * last / total := by
    rw [Nat.mul_comm _ last, Nat.mul_comm _ last]
    exact Nat.mul_div_le_mul_div_assoc _ _ _
  calc part * left / total * last / left
      ≤ part * left * last / total / left := Nat.div_le_div_right hfirst
    _ = part * last * left / (total * left) := by
        rw [Nat.div_div_eq_div_mul, Nat.mul_right_comm]
    _ = part * last / total := Nat.mul_div_mul_right _ _ hleft

theorem lt_scaled_twice (part : Nat) {total left last : Nat} (htotal : 0 < total) (hleft : 0 < left)
    (hlast : last ≤ left) :
    part * last / total < part * left / total * last / left + 2 := by
  have hfirst : part * left < part * left / total * total + total := Nat.lt_div_mul_add htotal
  generalize part * left / total = once at *
  have hsecond : once * last < once * last / left * left + left := Nat.lt_div_mul_add hleft
  generalize once * last / left = twice at *
  rw [Nat.div_lt_iff_lt_mul htotal]
  refine Nat.lt_of_mul_lt_mul_right (a := left) ?_
  calc part * last * left
      = part * left * last := Nat.mul_right_comm _ _ _
    _ ≤ (once * total + total) * last := Nat.mul_le_mul_right last hfirst.le
    _ = total * (once * last) + total * last := by ring
    _ ≤ total * (once * last) + total * left := by
        exact Nat.add_le_add_left (Nat.mul_le_mul_left total hlast) _
    _ < total * (twice * left + left) + total * left := by
        exact Nat.add_lt_add_right (Nat.mul_lt_mul_of_pos_left hsecond htotal) _
    _ = (twice + 2) * total * left := by ring

/-! ## Venues of a set -/

theorem AllocationSet.sum_eq_sum_venues (set : AllocationSet) :
    set.sum = (set.values.venues.map fun v => (set.value v).toNat).sum := by
  rw [sum, VenueMap.venues_eq_filter]
  induction Venue.all with
  | nil => rfl
  | cons v vs ih =>
    by_cases hv : set.values.contains v
    · simp [hv, ih]
    · have habsent : (set.value v).toNat = 0 := by
        have hnone : set.values.get? v = none := by simpa [VenueMap.contains] using hv
        simp [value, hnone]
      simp [hv, habsent, ih]

theorem VenueMap.venues_eq_nil {α : Type} {map : VenueMap α} :
    venues map = [] ↔ ∀ v, get? map v = none := by
  rw [venues_eq_filter, List.filter_eq_nil_iff]
  simp [contains, Venue.mem_all]

namespace Projection

/-! ## What is left -/

/-- How a projection shrinks when an amount leaves the vault. -/
structure Shrunk (p : Projection) (amount : UInt64) (rest : Projection) : Prop where
  actual : rest.actual = p.actual
  denomination : rest.target.denomination = p.target.denomination
  venues : rest.target.values.venues = p.target.values.venues
  total : rest.total.toNat + amount.toNat = p.total.toNat
  value_le : ∀ v, rest.target.value v ≤ p.target.value v
  /-- All targets together keep within the proportion. -/
  sum_le : 0 < p.total → rest.target.sum * p.total.toNat ≤ p.target.sum * rest.total.toNat
  /-- They are less than one unit each below it. -/
  lt_sum : 0 < p.total → p.target.values.venues ≠ [] →
    p.target.sum * rest.total.toNat <
      (rest.target.sum + p.target.values.venues.length) * p.total.toNat

variable {p : Projection} {amount : UInt64}

theorem toNat_total_without (hle : amount ≤ p.total) :
    (p.without amount).total.toNat = p.total.toNat - amount.toNat :=
  UInt64.toNat_sub_of_le _ _ hle

theorem venues_without (p : Projection) (amount : UInt64) :
    (p.without amount).target.values.venues = p.target.values.venues := by
  have hsame : VenueMap.contains (p.without amount).target.values =
      VenueMap.contains p.target.values := by
    funext v
    simp [without, VenueMap.contains]
  rw [VenueMap.venues_eq_filter, VenueMap.venues_eq_filter, hsame]

theorem sum_without (p : Projection) (amount : UInt64) :
    (p.without amount).target.sum = (p.target.values.venues.map (p.scaled amount)).sum := by
  simp only [AllocationSet.sum_eq_sum_venues, venues_without, toNat_value_without]

theorem shrunk_without (hle : amount ≤ p.total) : p.Shrunk amount (p.without amount) where
  actual := rfl
  denomination := rfl
  venues := p.venues_without amount
  total := by
    rw [toNat_total_without hle]
    exact Nat.sub_add_cancel (UInt64.le_iff_toNat_le.1 hle)
  value_le v := by
    rw [UInt64.le_iff_toNat_le, toNat_value_without]
    exact p.scaled_le amount v
  sum_le _ := by
    have hsum : (p.without amount).target.sum ≤
        p.target.sum * (p.total.toNat - amount.toNat) / p.total.toNat := by
      rw [sum_without, AllocationSet.sum_eq_sum_venues]
      exact sum_quotients_le _ _ _ _
    rw [toNat_total_without hle]
    exact Nat.le_trans (Nat.mul_le_mul_right _ hsum) (Nat.div_mul_le_self _ _)
  lt_sum hpos hsome := by
    have hlength : 0 < p.target.values.venues.length := List.length_pos_iff.2 hsome
    have hsum := sum_mul_add_length_le p.target.values.venues (fun v => (p.target.value v).toNat)
      (p.total.toNat - amount.toNat) (UInt64.lt_iff_toNat_lt.1 hpos)
    rw [← AllocationSet.sum_eq_sum_venues] at hsum
    rw [toNat_total_without hle, sum_without]
    exact Nat.lt_of_lt_of_le (Nat.lt_add_of_pos_right hlength) hsum

theorem scaled_without {later : UInt64} (hle : amount ≤ p.total) (v : Venue) :
    (p.without amount).scaled later v =
      p.scaled amount v * (p.total.toNat - amount.toNat - later.toNat) /
        (p.total.toNat - amount.toNat) := by
  rw [scaled, toNat_value_without, toNat_total_without hle]

/-! ## When there is something left -/

theorem afterWithdrawal_of_lt (hlt : p.total < amount) :
    p.afterWithdrawal amount = .error (.invalidInput (.aboveVaultValue amount p.total)) := by
  rw [afterWithdrawal, if_neg (UInt64.not_le.2 hlt)]

theorem afterWithdrawal_of_zero (hzero : p.total = 0) (hsome : p.target.values.venues ≠ []) :
    p.afterWithdrawal 0 = .error .divisionByZero := by
  have hfails : p.target.values.mapM (fun _ v => mulDiv v (p.total - 0) p.total .floor) =
      .error .divisionByZero :=
    VenueMap.mapM_eq_error hsome fun v a _ => by rw [mulDiv, if_pos hzero]
  simp only [afterWithdrawal, AllocationSet.rescale, if_pos UInt64.zero_le, hfails]
  rfl

theorem afterWithdrawal_of_scalable (hle : amount ≤ p.total)
    (hscalable : p.total = 0 → p.target.values.venues = []) :
    p.afterWithdrawal amount = .ok (p.without amount) := by
  refine afterWithdrawal_eq_without hle fun v a ha hzero => ?_
  rw [VenueMap.venues_eq_nil.1 (hscalable hzero) v] at ha
  cases ha

/-- The three ends of a withdrawal that is tried out: more than there is, nothing out of nothing,
or what is left. -/
theorem afterWithdrawal_verdict (p : Projection) (amount : UInt64) :
    (p.total < amount ∧
      p.afterWithdrawal amount = .error (.invalidInput (.aboveVaultValue amount p.total))) ∨
    ((p.total = 0 ∧ amount = 0 ∧ p.target.values.venues ≠ []) ∧
      p.afterWithdrawal amount = .error .divisionByZero) ∨
    ((amount ≤ p.total ∧ (p.total = 0 → p.target.values.venues = [])) ∧
      p.afterWithdrawal amount = .ok (p.without amount)) := by
  by_cases hle : amount ≤ p.total
  · by_cases hscalable : p.total = 0 → p.target.values.venues = []
    · exact .inr (.inr ⟨⟨hle, hscalable⟩, afterWithdrawal_of_scalable hle hscalable⟩)
    · obtain ⟨hzero, hsome⟩ := Classical.not_imp.1 hscalable
      obtain rfl : amount = 0 := UInt64.le_zero_iff.1 (hzero ▸ hle)
      exact .inr (.inl ⟨⟨hzero, rfl, hsome⟩, afterWithdrawal_of_zero hzero hsome⟩)
  · have hlt := UInt64.not_le.1 hle
    exact .inl ⟨hlt, afterWithdrawal_of_lt hlt⟩

/-! ## Two withdrawals -/

theorem toNat_add_of_le {a b : UInt64} (hsum : a.toNat + b.toNat ≤ p.total.toNat) :
    (a + b).toNat = a.toNat + b.toNat := by
  rw [UInt64.toNat_add, Nat.mod_eq_of_lt (Nat.lt_of_le_of_lt hsum p.total.toNat_lt)]

/-- Two withdrawals after one another leave each target where one withdrawal of both amounts leaves
it, or one unit below. -/
theorem value_without_twice {a b : UInt64} (hsum : a.toNat + b.toNat ≤ p.total.toNat)
    (hlt : a < p.total) (v : Venue) :
    ((p.without a).without b).target.value v = (p.without (a + b)).target.value v ∨
      (((p.without a).without b).target.value v).toNat + 1 =
        ((p.without (a + b)).target.value v).toNat := by
  have halt := UInt64.lt_iff_toNat_lt.1 hlt
  have htotal : 0 < p.total.toNat := by omega
  have hleft : 0 < p.total.toNat - a.toNat := by omega
  have hlast : p.total.toNat - a.toNat - b.toNat ≤ p.total.toNat - a.toNat := Nat.sub_le _ _
  have hle := scaled_twice_le (p.target.value v).toNat p.total.toNat
    (p.total.toNat - a.toNat - b.toNat) hleft
  have hnext := lt_scaled_twice (p.target.value v).toNat htotal hleft hlast
  rw [← UInt64.toNat_inj, toNat_value_without, toNat_value_without,
    scaled_without (UInt64.le_of_lt hlt), scaled, scaled, toNat_add_of_le hsum, ← Nat.sub_sub]
  omega

/-- Both withdrawals can be tried out, one after the other as well as at once. -/
theorem afterWithdrawal_twice {a b : UInt64} (hsum : a.toNat + b.toNat ≤ p.total.toNat)
    (hlt : a < p.total) :
    p.afterWithdrawal a = .ok (p.without a) ∧
    (p.without a).afterWithdrawal b = .ok ((p.without a).without b) ∧
    p.afterWithdrawal (a + b) = .ok (p.without (a + b)) := by
  have hle := UInt64.le_of_lt hlt
  have halt := UInt64.lt_iff_toNat_lt.1 hlt
  have hleft := toNat_total_without hle
  have htotal : p.total ≠ 0 := by
    rintro hzero
    simp [hzero] at halt
  have hsome : (p.without a).total ≠ 0 := by
    rintro hzero
    rw [hzero, UInt64.toNat_zero] at hleft
    omega
  refine ⟨afterWithdrawal_eq_without hle fun _ _ _ => htotal,
    afterWithdrawal_eq_without ?_ fun _ _ _ => hsome,
    afterWithdrawal_eq_without ?_ fun _ _ _ => htotal⟩
  · rw [UInt64.le_iff_toNat_le, hleft]
    omega
  · rw [UInt64.le_iff_toNat_le, toNat_add_of_le hsum]
    exact hsum

/-! ## The law -/

/-- A withdrawal that is tried out fails if it is of more than the vault holds, or of nothing from
nothing where there are targets; otherwise the targets shrink in proportion. Two withdrawals in a
row leave each target where one of both amounts leaves it, or one unit below. -/
theorem a_withdrawal_shrinks_the_targets_in_proportion (p : Projection) (amount : UInt64) :
    (∀ fault, p.afterWithdrawal amount = .error (.invalidInput fault) ↔
      p.total < amount ∧ fault = .aboveVaultValue amount p.total) ∧
    (p.afterWithdrawal amount = .error .divisionByZero ↔
      p.total = 0 ∧ amount = 0 ∧ p.target.values.venues ≠ []) ∧
    (amount ≤ p.total → ¬ (p.total = 0 ∧ amount = 0 ∧ p.target.values.venues ≠ []) →
      ∃ rest, p.afterWithdrawal amount = .ok rest ∧ p.Shrunk amount rest) ∧
    ∀ later, amount.toNat + later.toNat ≤ p.total.toNat → amount < p.total →
      ∃ first second once, p.afterWithdrawal amount = .ok first ∧
        first.afterWithdrawal later = .ok second ∧
        p.afterWithdrawal (amount + later) = .ok once ∧
        ∀ v, second.target.value v = once.target.value v ∨
          (second.target.value v).toNat + 1 = (once.target.value v).toNat := by
  refine ⟨fun fault => ?_, ?_, fun hle hsome => ?_, fun later hsum hlt => ?_⟩
  · rcases p.afterWithdrawal_verdict amount with ⟨hlt, h⟩ | ⟨⟨hzero, rfl, -⟩, h⟩ | ⟨⟨hle, -⟩, h⟩
    · simp [h, hlt, eq_comm]
    · simp [h, hzero]
    · simp [h, UInt64.not_lt.2 hle]
  · rcases p.afterWithdrawal_verdict amount with ⟨hlt, h⟩ | ⟨hnothing, h⟩ | ⟨⟨hle, hscalable⟩, h⟩
    · simp only [h, reduceCtorEq, Except.error.injEq, false_iff]
      rintro ⟨hzero, rfl, -⟩
      simp [hzero] at hlt
    · exact ⟨fun _ => hnothing, fun _ => h⟩
    · simp only [h, reduceCtorEq, false_iff]
      rintro ⟨hzero, -, hsome⟩
      exact hsome (hscalable hzero)
  · rcases p.afterWithdrawal_verdict amount with ⟨hlt, -⟩ | ⟨hnothing, -⟩ | ⟨-, h⟩
    · exact absurd hle (UInt64.not_le.2 hlt)
    · exact absurd hnothing hsome
    · exact ⟨_, h, shrunk_without hle⟩
  · obtain ⟨hfirst, hsecond, honce⟩ := afterWithdrawal_twice hsum hlt
    exact ⟨_, _, _, hfirst, hsecond, honce, value_without_twice hsum hlt⟩

/-- A target of half of 4 units is left at one unit by a withdrawal of 2, and at none by two of 1. -/
example :
    let p : Projection := ⟨⟨default, ⟨some 2, none, none⟩⟩, ⟨default, .empty⟩, 4⟩
    (p.without 2).target.value .solend = 1 ∧
    ((p.without 1).without 1).target.value .solend = 0 := by
  decide

end Projection

end YieldVault
