-- Decimal numerals: one optional plus sign and at least one digit, leading
-- zeros allowed, nothing else.
namespace YieldVault.Text

/-- The value of a decimal digit. -/
def digitValue (c : Char) : Nat := c.toNat - 48

/-- The number that decimal digits write, first the highest. -/
def numberOf (digits : List Char) : Nat :=
  digits.foldl (fun n c => 10 * n + digitValue c) 0

/-- The number of a run of digits with at least one of them. -/
def naturalChars? (cs : List Char) : Option Nat :=
  if !cs.isEmpty && cs.all Char.isDigit then some (numberOf cs) else none

/-- The number that a numeral writes, if it is below the limit. -/
def unsigned? (limit : Nat) (text : String) : Option Nat :=
  let digits := match text.toList with
    | '+' :: rest => rest
    | cs => cs
  (naturalChars? digits).filter (· < limit)

end YieldVault.Text
