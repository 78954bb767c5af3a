-- Amounts are 64-bit words. Scaling multiplies before it divides, in wide words,
-- and gives the quotient where that is a word again.
import YieldVault.Wide

namespace YieldVault

/-- Which whole number stands for a quotient that is not whole. -/
inductive Rounding
  | floor
  | ceiling
  deriving DecidableEq, Repr

/-- The quotient of two wide words, rounded. To round up, the denominator less one is added to
what is divided. -/
def Rounding.divide : Rounding → (numerator denominator : Wide) → Except Error Wide
  | .floor, n, d => .ok (n / d)
  | .ceiling, n, d => do
    let sum ← n.add? d
    let raised ← sum.sub? 1#128
    pure (raised / d)

/-- The word of a number that fits into one. -/
def amount? (n : Nat) : Except Error UInt64 :=
  if n < UInt64.size then .ok (UInt64.ofNat n) else .error .mathOverflow

/-- `value * numerator / denominator`, rounded. -/
def mulDiv (value numerator denominator : UInt64) (rounding : Rounding) : Except Error UInt64 :=
  if denominator = 0 then .error .divisionByZero
  else do
    let product ← (Wide.ofWord value).mul? (Wide.ofWord numerator)
    let quotient ← rounding.divide product (Wide.ofWord denominator)
    amount? quotient.toNat

/-- Basis points in a whole. -/
def wholeBps : Nat := 10000

/-- The part of an amount that a number of basis points takes, rounded down. -/
def applyBps (value : UInt64) (bps : UInt16) : Except Error UInt64 :=
  mulDiv value bps.toUInt64 (UInt64.ofNat wholeBps) .floor

end YieldVault
