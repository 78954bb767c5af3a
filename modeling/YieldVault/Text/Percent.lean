-- Percent-encoded text: `%` and two hexadecimal digits stand for one byte, any
-- other character for itself. The bytes must be UTF-8.
import YieldVault.Bytes

namespace YieldVault.Text

/-- The bytes of percent-encoded text. A `%` without two digits stands for itself. -/
def percentBytes : Bytes → Bytes
  | 37 :: high :: low :: rest =>
    match Bytes.hexValue? (Char.ofNat high.toNat), Bytes.hexValue? (Char.ofNat low.toNat) with
    | some h, some l => UInt8.ofNat (16 * h + l) :: percentBytes rest
    | _, _ => 37 :: percentBytes (high :: low :: rest)
  | b :: rest => b :: percentBytes rest
  | [] => []

/-- The text that percent-encoded text stands for, unless its bytes are not UTF-8. -/
def percentDecoded? (text : String) : Option String :=
  String.fromUTF8? (percentBytes (Bytes.ofText text)).toByteArray

end YieldVault.Text
