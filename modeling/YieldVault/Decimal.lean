-- Unsigned decimals with eighteen places, and their text: the whole part, and
-- the places after a point without closing zeros, if any is left.
import YieldVault.Amount
import YieldVault.Text.Numeral

namespace YieldVault

/-- A number of eighteen decimal places, kept as a count of the last place. -/
structure Decimal where
  scaled : Nat
  deriving DecidableEq, Repr

namespace Decimal

/-- The number of places. -/
def places : Nat := 18

/-- The count of the last place that makes one. -/
def one : Nat := Nat.pow 10 places

/-- The quotient of two words, cut off after the last place. -/
def ofRatio (numerator denominator : UInt64) : Except Error Decimal :=
  if denominator = 0 then .error .divisionByZero
  else do
    let product ← (Wide.ofWord numerator).mul? (BitVec.ofNat 128 one)
    pure ⟨(product / Wide.ofWord denominator).toNat⟩

/-- The digits of a number below `10 ^ width`, with leading zeros. -/
def paddedDigits : (width n : Nat) → List Char
  | 0, _ => []
  | width + 1, n => paddedDigits width (n / 10) ++ [Char.ofNat (48 + n % 10)]

/-- A text without the zeros at its end. -/
def dropClosingZeros (cs : List Char) : List Char :=
  (cs.reverse.dropWhile (· = '0')).reverse

/-- The text of a decimal. -/
def text (d : Decimal) : String :=
  let whole := toString (d.scaled / one)
  let fraction := d.scaled % one
  if fraction = 0 then whole
  else whole ++ "." ++ String.ofList (dropClosingZeros (paddedDigits places fraction))

instance : ToString Decimal := ⟨text⟩

end Decimal

end YieldVault
