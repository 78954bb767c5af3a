-- The law of scaling: a scaled amount is the exact quotient, rounded, up to the
-- largest word. No step on the way to it is too large for a wide word or below zero,
-- and the two roundings are one apart where the division leaves something over.
import Mathlib.Algebra.Order.Floor.Semiring
import Mathlib.Data.Rat.Floor
import YieldVault.Proofs.Amounts

namespace YieldVault

/-! ## Rounded quotients -/

theorem ceiling_le_iff {n d k : Nat} (hd : 0 < d) :
    Rounding.ceiling.quotient n d ≤ k ↔ n ≤ k * d := by
  have hdiv : (n + d - 1) / d ≤ k ↔ n + d - 1 ≤ d * k + (d - 1) := Nat.div_le_iff_le_mul_add_pred hd
  rw [Rounding.quotient, hdiv, Nat.mul_comm k d]
  omega

theorem ceiling_of_dvd {n d : Nat} (hd : 0 < d) (h : d ∣ n) :
    Rounding.ceiling.quotient n d = Rounding.floor.quotient n d := by
  obtain ⟨whole, rfl⟩ := h
  refine eq_of_forall_ge_iff fun k => ?_
  rw [ceiling_le_iff hd, Rounding.quotient, Nat.mul_div_cancel_left whole hd, Nat.mul_comm k d]
  exact Nat.mul_le_mul_left_iff hd

theorem ceiling_of_not_dvd {n d : Nat} (hd : 0 < d) (h : ¬ d ∣ n) :
    Rounding.ceiling.quotient n d = Rounding.floor.quotient n d + 1 := by
  have hbelow : n / d * d < n := by
    refine Nat.lt_of_le_of_ne (Nat.div_mul_le_self n d) fun hexact => h ⟨n / d, ?_⟩
    rw [Nat.mul_comm, hexact]
  have habove : n < n / d * d + d := Nat.lt_div_mul_add hd
  refine Nat.le_antisymm ?_ ?_
  · rw [ceiling_le_iff hd, Nat.add_mul, Nat.one_mul]
    exact habove.le
  · rw [Nat.succ_le_iff, ← Nat.not_le, ceiling_le_iff hd, Nat.not_le]
    exact hbelow

/-! ## The exact quotient -/

/-- The whole number next to a quotient, on the side to which it is rounded. -/
def Rounding.whole : Rounding → ℚ → ℕ
  | .floor, quotient => ⌊quotient⌋₊
  | .ceiling, quotient => ⌈quotient⌉₊

theorem Rounding.quotient_eq_whole (rounding : Rounding) (n : ℕ) {d : ℕ} (hd : 0 < d) :
    rounding.quotient n d = rounding.whole (n / d) := by
  cases rounding with
  | floor => exact (Rat.natFloor_natCast_div_natCast n d).symm
  | ceiling =>
    -- both are the least number that comes to `n` or more if it is taken `d` times
    refine eq_of_forall_ge_iff fun k => ?_
    have hpos : (0 : ℚ) < d := Nat.cast_pos.2 hd
    rw [ceiling_le_iff hd, whole, Nat.ceil_le, div_le_iff₀ hpos, ← Nat.cast_mul, Nat.cast_le]

variable {value numerator denominator : UInt64}

/-- What scaling comes to before it is rounded. -/
def unrounded (value numerator denominator : UInt64) : ℚ :=
  (value.toNat * numerator.toNat : ℕ) / denominator.toNat

/-- Nothing is left over where a value is scaled. -/
def ScalesEvenly (value numerator denominator : UInt64) : Prop :=
  denominator.toNat ∣ value.toNat * numerator.toNat

theorem quotient_eq_whole_unrounded (rounding : Rounding) (hd : denominator ≠ 0) :
    rounding.quotient (value.toNat * numerator.toNat) denominator.toNat =
      rounding.whole (unrounded value numerator denominator) :=
  rounding.quotient_eq_whole _ (toNat_pos hd)

theorem whole_ceiling_iff (hd : denominator ≠ 0) :
    Rounding.ceiling.whole (unrounded value numerator denominator) =
        Rounding.floor.whole (unrounded value numerator denominator) + 1 ↔
      ¬ ScalesEvenly value numerator denominator := by
  rw [← quotient_eq_whole_unrounded _ hd, ← quotient_eq_whole_unrounded _ hd]
  constructor
  · intro hnext heven
    rw [ceiling_of_dvd (toNat_pos hd) heven] at hnext
    omega
  · exact ceiling_of_not_dvd (toNat_pos hd)

/-! ## The outcomes of scaling -/

theorem amount?_eq_overflow {n : Nat} : amount? n = .error .mathOverflow ↔ UInt64.size ≤ n := by
  unfold amount?
  split
  · rename_i hn
    simpa using hn
  · rename_i hn
    simpa using hn

theorem amount?_ne_divisionByZero (n : Nat) : amount? n ≠ .error .divisionByZero := by
  unfold amount?
  split <;> simp

theorem mulDiv_eq_divisionByZero (rounding : Rounding) :
    mulDiv value numerator denominator rounding = .error .divisionByZero ↔ denominator = 0 := by
  by_cases hd : denominator = 0
  · simp [mulDiv, hd]
  · rw [mulDiv_of_ne_zero rounding hd]
    simp [hd, amount?_ne_divisionByZero]

theorem mulDiv_ceiling_of_evenly (hd : denominator ≠ 0)
    (heven : ScalesEvenly value numerator denominator) :
    mulDiv value numerator denominator .ceiling = mulDiv value numerator denominator .floor := by
  rw [mulDiv_of_ne_zero _ hd, mulDiv_of_ne_zero _ hd, ceiling_of_dvd (toNat_pos hd) heven]

theorem mulDiv_ceiling_of_not_evenly (hd : denominator ≠ 0)
    (huneven : ¬ ScalesEvenly value numerator denominator) {low : UInt64}
    (hlow : mulDiv value numerator denominator .floor = .ok low) :
    mulDiv value numerator denominator .ceiling = amount? (low.toNat + 1) := by
  rw [mulDiv_of_ne_zero _ hd, ceiling_of_not_dvd (toNat_pos hd) huneven, (mulDiv_eq_ok.1 hlow).2]

/-- The wide words on the way to a quotient hold what they are meant to: the product, the sum that
rounding up makes of it, and one less than that. -/
def Wide.HasRoom (value numerator denominator : UInt64) : Prop :=
  ∃ product sum raised, (ofWord value).mul? (ofWord numerator) = .ok product ∧
    product.add? (ofWord denominator) = .ok sum ∧ sum.sub? 1#128 = .ok raised ∧
    product.toNat = value.toNat * numerator.toNat ∧
    sum.toNat = product.toNat + denominator.toNat ∧ raised.toNat + 1 = sum.toNat

theorem Wide.hasRoom (hd : denominator ≠ 0) : HasRoom value numerator denominator := by
  obtain ⟨product, hproduct, hproductNat⟩ := exists_product value numerator
  obtain ⟨sum, raised, hsum, hsumNat, hraised, hraisedNat⟩ := exists_raised hproductNat hd
  have hpos := toNat_pos hd
  refine ⟨product, sum, raised, hproduct, hsum, hraised, hproductNat, ?_, ?_⟩
  · rw [hsumNat, hproductNat]
  · omega

/-! ## The law -/

/-- Scaling divides exactly. Where there is something to divide by, it gives the mathematical
quotient, rounded as asked, if that is a word, and overflows only if it is not. No step on the way
overflows, and rounding up comes to one more exactly where something is left over. -/
theorem scaling_is_exact_up_to_the_largest_word (value numerator denominator : UInt64) :
    (∀ rounding, mulDiv value numerator denominator rounding = .error .divisionByZero ↔
      denominator = 0) ∧
    (denominator ≠ 0 →
      (∀ rounding result, mulDiv value numerator denominator rounding = .ok result ↔
        result.toNat = rounding.whole (unrounded value numerator denominator)) ∧
      (∀ rounding, mulDiv value numerator denominator rounding = .error .mathOverflow ↔
        UInt64.size ≤ rounding.whole (unrounded value numerator denominator)) ∧
      Wide.HasRoom value numerator denominator ∧
      (Rounding.ceiling.whole (unrounded value numerator denominator) =
          Rounding.floor.whole (unrounded value numerator denominator) + 1 ↔
        ¬ ScalesEvenly value numerator denominator) ∧
      (ScalesEvenly value numerator denominator →
        mulDiv value numerator denominator .ceiling =
          mulDiv value numerator denominator .floor) ∧
      (¬ ScalesEvenly value numerator denominator →
        ∀ low, mulDiv value numerator denominator .floor = .ok low →
          mulDiv value numerator denominator .ceiling = amount? (low.toNat + 1))) := by
  refine ⟨mulDiv_eq_divisionByZero, fun hd => ⟨?_, ?_, Wide.hasRoom hd, whole_ceiling_iff hd,
    mulDiv_ceiling_of_evenly hd, fun huneven low hlow => mulDiv_ceiling_of_not_evenly hd huneven hlow⟩⟩
  · intro rounding result
    rw [mulDiv_of_ne_zero rounding hd, amount?_eq_ok, quotient_eq_whole_unrounded rounding hd]
  · intro rounding
    rw [mulDiv_of_ne_zero rounding hd, amount?_eq_overflow, quotient_eq_whole_unrounded rounding hd]

/-- A quotient between the largest word and the next number fits only if it is rounded down. -/
example :
    mulDiv 18446744073709551614 9223372036854775809 9223372036854775808 .floor =
      .ok 18446744073709551615 ∧
    mulDiv 18446744073709551614 9223372036854775809 9223372036854775808 .ceiling =
      .error .mathOverflow := by decide

end YieldVault
