-- The laws of scaling: what a scaled amount is, and when there is none. The wide
-- words in between are never too narrow, so that it can be told in plain numbers.
import Mathlib.Algebra.BigOperators.Group.List.Basic
import Mathlib.Algebra.Ring.Nat
import YieldVault.Amount

namespace YieldVault

theorem toNat_pos {a : UInt64} (h : a ≠ 0) : 0 < a.toNat := by
  rw [Nat.pos_iff_ne_zero, ne_eq, ← UInt64.toNat_zero, UInt64.toNat_inj]
  exact h

/-! ## Wide words -/

namespace Wide

theorem toNat_ofWord (a : UInt64) : (ofWord a).toNat = a.toNat := by
  have ha : a.toNat < 2 ^ 128 := Nat.lt_trans a.toNat_lt (by decide)
  rw [ofWord, BitVec.toNat_setWidth, UInt64.toNat_toBitVec, Nat.mod_eq_of_lt ha]

theorem exists_mul?_eq_ok {a b : Wide} (h : a.toNat * b.toNat < 2 ^ 128) :
    ∃ product, a.mul? b = .ok product ∧ product.toNat = a.toNat * b.toNat := by
  have hfits : ¬ a.umulOverflow b := by simpa [BitVec.umulOverflow] using h
  refine ⟨a * b, ?_, BitVec.toNat_mul_of_not_umulOverflow hfits⟩
  rw [mul?, checked, if_neg hfits]

theorem exists_add?_eq_ok {a b : Wide} (h : a.toNat + b.toNat < 2 ^ 128) :
    ∃ sum, a.add? b = .ok sum ∧ sum.toNat = a.toNat + b.toNat := by
  have hfits : ¬ a.uaddOverflow b := by simpa [BitVec.uaddOverflow] using h
  refine ⟨a + b, ?_, BitVec.toNat_add_of_not_uaddOverflow hfits⟩
  rw [add?, checked, if_neg hfits]

theorem exists_sub?_eq_ok {a b : Wide} (h : b.toNat ≤ a.toNat) :
    ∃ rest, a.sub? b = .ok rest ∧ rest.toNat = a.toNat - b.toNat := by
  have hfits : ¬ a.usubOverflow b := by simpa [BitVec.usubOverflow] using h
  refine ⟨a - b, ?_, BitVec.toNat_sub_of_not_usubOverflow hfits⟩
  rw [sub?, checked, if_neg hfits]

/-- No product is larger than that of the largest word with itself. -/
theorem product_le (a b : UInt64) : a.toNat * b.toNat ≤ (UInt64.size - 1) * (UInt64.size - 1) :=
  Nat.mul_le_mul (Nat.le_sub_one_of_lt a.toNat_lt) (Nat.le_sub_one_of_lt b.toNat_lt)

theorem exists_product (a b : UInt64) :
    ∃ product, (ofWord a).mul? (ofWord b) = .ok product ∧
      product.toNat = a.toNat * b.toNat := by
  have hle := product_le a b
  have hfits : (ofWord a).toNat * (ofWord b).toNat < 2 ^ 128 := by
    rw [toNat_ofWord, toNat_ofWord]
    exact Nat.lt_of_le_of_lt hle (by decide)
  obtain ⟨product, hproduct, htoNat⟩ := exists_mul?_eq_ok hfits
  exact ⟨product, hproduct, by rw [htoNat, toNat_ofWord, toNat_ofWord]⟩

/-- A product leaves room for what is added to it to round up. -/
theorem exists_raised {product : Wide} {a b d : UInt64} (hproduct : product.toNat = a.toNat * b.toNat)
    (hd : d ≠ 0) :
    ∃ sum raised, product.add? (ofWord d) = .ok sum ∧
      sum.toNat = a.toNat * b.toNat + d.toNat ∧
      sum.sub? 1#128 = .ok raised ∧ raised.toNat = a.toNat * b.toNat + d.toNat - 1 := by
  have hle := product_le a b
  have hdlt := d.toNat_lt
  have hdpos := toNat_pos hd
  have hroom : product.toNat + (ofWord d).toNat < 2 ^ 128 := by
    rw [hproduct, toNat_ofWord]
    simp only [UInt64.size] at hle
    omega
  obtain ⟨sum, hsum, hsumNat⟩ := exists_add?_eq_ok hroom
  rw [hproduct, toNat_ofWord] at hsumNat
  have hone : (1#128 : Wide).toNat ≤ sum.toNat := by
    rw [hsumNat]
    simp only [BitVec.toNat_ofNat]
    omega
  obtain ⟨raised, hraised, hraisedNat⟩ := exists_sub?_eq_ok hone
  refine ⟨sum, raised, hsum, hsumNat, hraised, ?_⟩
  rw [hraisedNat, hsumNat]
  rfl

end Wide

/-- The quotient of two numbers, rounded. -/
def Rounding.quotient : Rounding → (numerator denominator : Nat) → Nat
  | .floor, n, d => n / d
  | .ceiling, n, d => (n + d - 1) / d

theorem Rounding.exists_divide {product : Wide} {a b d : UInt64} (rounding : Rounding)
    (hproduct : product.toNat = a.toNat * b.toNat) (hd : d ≠ 0) :
    ∃ quotient, rounding.divide product (.ofWord d) = .ok quotient ∧
      quotient.toNat = rounding.quotient (a.toNat * b.toNat) d.toNat := by
  cases rounding with
  | floor =>
    refine ⟨_, rfl, ?_⟩
    rw [BitVec.toNat_udiv, hproduct, Wide.toNat_ofWord]
    rfl
  | ceiling =>
    obtain ⟨sum, raised, hsum, -, hraised, hraisedNat⟩ := Wide.exists_raised hproduct hd
    refine ⟨raised / .ofWord d, ?_, ?_⟩
    · simp only [divide, hsum, hraised, bind, Except.bind, pure, Except.pure]
    · rw [BitVec.toNat_udiv, hraisedNat, Wide.toNat_ofWord]
      rfl

/-! ## Amounts -/

theorem amount?_eq_ok {n : Nat} {a : UInt64} : amount? n = .ok a ↔ a.toNat = n := by
  unfold amount?
  split
  · rename_i hn
    rw [Except.ok.injEq]
    constructor
    · rintro rfl
      exact UInt64.toNat_ofNat_of_lt' hn
    · rintro rfl
      exact UInt64.ofNat_toNat
  · rename_i hn
    simp only [reduceCtorEq, false_iff]
    rintro rfl
    exact hn a.toNat_lt

theorem amount?_of_lt {n : Nat} (h : n < UInt64.size) : amount? n = .ok (UInt64.ofNat n) := by
  simp [amount?, h]

/-- Told in plain numbers, scaling rounds the quotient and looks whether it is a word. -/
theorem mulDiv_of_ne_zero {value numerator denominator : UInt64} (rounding : Rounding)
    (hd : denominator ≠ 0) :
    mulDiv value numerator denominator rounding =
      amount? (rounding.quotient (value.toNat * numerator.toNat) denominator.toNat) := by
  obtain ⟨product, hproduct, hproductNat⟩ := Wide.exists_product value numerator
  obtain ⟨quotient, hquotient, hquotientNat⟩ := rounding.exists_divide hproductNat hd
  simp only [mulDiv, if_neg hd, hproduct, hquotient, hquotientNat, bind, Except.bind]

/-- A scaled amount is the rounded quotient; there is one where the denominator is not zero and
the quotient is a word. -/
theorem mulDiv_eq_ok {value numerator denominator a : UInt64} {rounding : Rounding} :
    mulDiv value numerator denominator rounding = .ok a ↔
      denominator ≠ 0 ∧
        a.toNat = rounding.quotient (value.toNat * numerator.toNat) denominator.toNat := by
  by_cases hd : denominator = 0
  · simp [mulDiv, hd]
  · rw [mulDiv_of_ne_zero rounding hd, amount?_eq_ok]
    simp [hd]

/-! ## Quotients -/

theorem quotient_le_left {n d whole : Nat} (h : n ≤ whole) : d * n / whole ≤ d :=
  Nat.div_le_of_le_mul (by rw [Nat.mul_comm whole d]; exact Nat.mul_le_mul_left d h)

/-- Parts rounded down come to no more than the rounded whole. -/
theorem sum_quotients_le {α : Type} (parts : List α) (f : α → Nat) (n d : Nat) :
    (parts.map fun x => f x * n / d).sum ≤ (parts.map f).sum * n / d := by
  induction parts with
  | nil => simp
  | cons x xs ih =>
    simp only [List.map_cons, List.sum_cons, Nat.add_mul]
    calc f x * n / d + (xs.map fun x => f x * n / d).sum
        ≤ f x * n / d + (xs.map f).sum * n / d := Nat.add_le_add_left ih _
      _ ≤ (f x * n + (xs.map f).sum * n) / d := Nat.div_add_div_le_add_div

end YieldVault
