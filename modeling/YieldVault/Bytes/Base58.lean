-- Base-58 text: a byte string read as one number, highest byte first, and
-- written in the 58 digits of the alphabet; every leading zero byte is a
-- leading `1`.
import YieldVault.Bytes

namespace YieldVault.Base58

/-- The digits in order of value: no `0`, `O`, `I` or `l`. -/
def alphabet : List Char :=
  "123456789ABCDEFGHJKLMNPQRSTUVWXYZabcdefghijkmnopqrstuvwxyz".toList

/-- The digit of a value below 58. -/
def digit (n : Nat) : Char := alphabet.getD n '1'

/-- The value of a digit, if the character is one. -/
def value? (c : Char) : Option Nat := alphabet.findIdx? (· == c)

/-- The digits of a number in a base, highest first; none for zero. -/
def digits (base n : Nat) (tail : List Nat) : List Nat :=
  if _h : n = 0 ∨ base < 2 then tail
  else digits base (n / base) (n % base :: tail)
termination_by n
decreasing_by exact Nat.div_lt_self (by omega) (by omega)

/-- The text of a byte string. -/
def encode (bytes : Bytes) : String :=
  let zeros := bytes.takeWhile (· == 0)
  let number := Bytes.toNat bytes.reverse
  String.ofList (zeros.map (fun _ => '1') ++ (digits 58 number []).map digit)

/-- The values of the characters, if all are digits. -/
def values? (text : String) : Option (List Nat) := text.toList.mapM value?

/-- The byte string that a text of digits writes, without a fixed length. -/
def decode? (text : String) : Option Bytes := do
  let values ← values? text
  let zeros := values.takeWhile (· == 0)
  let number := values.foldl (fun n v => 58 * n + v) 0
  pure (zeros.map (fun _ => 0) ++ (digits 256 number []).map UInt8.ofNat)

end YieldVault.Base58
