-- The exchange rate between reserve units and shares, kept as the exact ratio of
-- the recorded totals, so that a conversion rounds once. A vault that is empty
-- on either side trades one to one.
import YieldVault.Decimal

namespace YieldVault

/-- Reserve units per share, as a ratio of two words. -/
structure ExchangeRate where
  value : UInt64
  shares : UInt64
  deriving DecidableEq, Repr

namespace ExchangeRate

/-- The rate of a vault of this total value against this share supply. -/
def ofTotals (total supply : UInt64) : ExchangeRate :=
  if total = 0 ∨ supply = 0 then ⟨1, 1⟩ else ⟨total, supply⟩

/-- The rate as a decimal. -/
def decimal (rate : ExchangeRate) : Except Error Decimal :=
  Decimal.ofRatio rate.value rate.shares

/-- The shares that stand for an amount of the reserve. -/
def toShares (rate : ExchangeRate) (amount : UInt64) (rounding : Rounding) : Except Error UInt64 :=
  mulDiv amount rate.shares rate.value rounding

/-- The amount of the reserve that shares are redeemed for. -/
def toReserve (rate : ExchangeRate) (shares : UInt64) (rounding : Rounding) : Except Error UInt64 :=
  mulDiv shares rate.value rate.shares rounding

end ExchangeRate

end YieldVault
