-- The law of exchange: whatever is rounded, the vault does not lose by it. An amount
-- buys a number of shares exactly if these cost no more than the amount, and shares
-- that were priced at a rate are paid at most what they were priced for.
import YieldVault.Proofs.Scaling
import YieldVault.Rate

namespace YieldVault

/-! ## Comparing outcomes -/

/-- The outcome comes to at least so much: what has no word is larger than every word. -/
def AtLeast (least : UInt64) : Except Error UInt64 → Prop
  | .ok amount => least ≤ amount
  | .error e => e = .mathOverflow

/-- The outcome is a word, and comes to at most so much. -/
def AtMost (most : UInt64) : Except Error UInt64 → Prop
  | .ok amount => amount ≤ most
  | .error _ => False

theorem atLeast_amount? {least : UInt64} {n : Nat} : AtLeast least (amount? n) ↔ least.toNat ≤ n := by
  by_cases hn : n < UInt64.size
  · rw [amount?_of_lt hn, AtLeast, UInt64.le_iff_toNat_le, UInt64.toNat_ofNat_of_lt' hn]
  · have hlt := least.toNat_lt
    rw [amount?_eq_overflow.2 (Nat.le_of_not_lt hn)]
    simp only [AtLeast, true_iff, UInt64.size] at hn ⊢
    omega

theorem atMost_amount? {most : UInt64} {n : Nat} : AtMost most (amount? n) ↔ n ≤ most.toNat := by
  by_cases hn : n < UInt64.size
  · rw [amount?_of_lt hn, AtMost, UInt64.le_iff_toNat_le, UInt64.toNat_ofNat_of_lt' hn]
  · have hlt := most.toNat_lt
    rw [amount?_eq_overflow.2 (Nat.le_of_not_lt hn)]
    simp only [AtMost, false_iff, UInt64.size] at hn ⊢
    omega

namespace ExchangeRate

/-! ## Rates of a vault -/

/-- How much one side of a vault counts for against the other. Where one of them is empty, both
count for one. -/
def side (own other : UInt64) : Nat := if own = 0 ∨ other = 0 then 1 else own.toNat

theorem side_pos (own other : UInt64) : 0 < side own other := by
  unfold side
  split
  · exact Nat.one_pos
  · rename_i hsome
    exact toNat_pos (not_or.1 hsome).1

variable (total supply : UInt64)

theorem toNat_value_ofTotals : (ofTotals total supply).value.toNat = side total supply := by
  unfold ofTotals side
  split <;> rfl

theorem toNat_shares_ofTotals : (ofTotals total supply).shares.toNat = side supply total := by
  unfold ofTotals side
  by_cases hsome : total = 0 ∨ supply = 0
  · simp [hsome, hsome.symm]
  · rw [if_neg hsome, if_neg (mt Or.symm hsome)]

theorem ne_zero_of_ofTotals :
    (ofTotals total supply).value ≠ 0 ∧ (ofTotals total supply).shares ≠ 0 := by
  unfold ofTotals
  split
  · exact ⟨by decide, by decide⟩
  · rename_i hsome
    exact not_or.1 hsome

theorem toShares_ofTotals (amount : UInt64) (rounding : Rounding) :
    (ofTotals total supply).toShares amount rounding =
      amount? (rounding.quotient (amount.toNat * side supply total) (side total supply)) := by
  rw [toShares, mulDiv_of_ne_zero rounding (ne_zero_of_ofTotals total supply).1,
    toNat_shares_ofTotals, toNat_value_ofTotals]

theorem toReserve_ofTotals (shares : UInt64) (rounding : Rounding) :
    (ofTotals total supply).toReserve shares rounding =
      amount? (rounding.quotient (shares.toNat * side total supply) (side supply total)) := by
  rw [toReserve, mulDiv_of_ne_zero rounding (ne_zero_of_ofTotals total supply).2,
    toNat_shares_ofTotals, toNat_value_ofTotals]

/-! ## There and back -/

/-- Rounded down on the way there, and again on the way back, an amount does not grow. -/
theorem back_le (amount value shares : Nat) :
    amount * shares / value * value / shares ≤ amount := by
  have hthere : amount * shares / value * value ≤ amount * shares := Nat.div_mul_le_self _ _
  rw [Nat.mul_comm amount shares] at hthere ⊢
  exact Nat.div_le_of_le_mul hthere

/-- What is lost on the way is less than one share and one unit. -/
theorem loss_lt (amount : Nat) {value shares : Nat} (hvalue : 0 < value) (hshares : 0 < shares) :
    (amount - amount * shares / value * value / shares) * shares < value + shares := by
  have hthere : amount * shares < amount * shares / value * value + value :=
    Nat.lt_div_mul_add hvalue
  have hback : amount * shares / value * value <
      amount * shares / value * value / shares * shares + shares := Nat.lt_div_mul_add hshares
  rw [Nat.sub_mul]
  omega

/-! ## The law -/

/-- An amount buys shares exactly if they cost no more than the amount, both rounded in favour of
the vault. Shares that an amount was priced at are paid, with no more than that amount, and what
stays in the vault is worth less than one of them and one unit. -/
theorem an_exchange_is_rounded_in_favour_of_the_vault (total supply amount shares : UInt64) :
    (∀ rounding, (ofTotals total supply).toShares amount rounding ≠ .error .divisionByZero ∧
      (ofTotals total supply).toReserve shares rounding ≠ .error .divisionByZero) ∧
    (AtLeast shares ((ofTotals total supply).toShares amount .floor) ↔
      AtMost amount ((ofTotals total supply).toReserve shares .ceiling)) ∧
    ∀ burned, (ofTotals total supply).toShares amount .floor = .ok burned →
      ∃ paid, (ofTotals total supply).toReserve burned .floor = .ok paid ∧ paid ≤ amount ∧
        (amount.toNat - paid.toNat) * side supply total < side total supply + side supply total := by
  have hvalue := side_pos total supply
  have hshares := side_pos supply total
  refine ⟨fun rounding => ?_, ?_, fun burned hburned => ?_⟩
  · rw [toShares_ofTotals, toReserve_ofTotals]
    exact ⟨amount?_ne_divisionByZero _, amount?_ne_divisionByZero _⟩
  · -- both say that the shares, at their value, come to no more than the amount
    rw [toShares_ofTotals, toReserve_ofTotals, atLeast_amount?, atMost_amount?,
      ceiling_le_iff hshares]
    exact Nat.le_div_iff_mul_le hvalue
  · rw [toShares_ofTotals, amount?_eq_ok, Rounding.quotient] at hburned
    have hback := back_le amount.toNat (side total supply) (side supply total)
    have hword := Nat.lt_of_le_of_lt hback amount.toNat_lt
    rw [toReserve_ofTotals, Rounding.quotient, hburned]
    refine ⟨_, amount?_of_lt hword, ?_, ?_⟩
    · rwa [UInt64.le_iff_toNat_le, UInt64.toNat_ofNat_of_lt' hword]
    · rw [UInt64.toNat_ofNat_of_lt' hword]
      exact loss_lt amount.toNat hvalue hshares

/-- A vault of 1000 units and 3 shares: 500 units are priced at one share, which is paid 333. -/
example : (ofTotals 1000 3).toShares 500 .floor = .ok 1 ∧
    (ofTotals 1000 3).toReserve 1 .floor = .ok 333 := by decide

end ExchangeRate

end YieldVault
