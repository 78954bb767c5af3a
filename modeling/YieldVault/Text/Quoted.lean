-- Quoted text, as messages show a text or a character they were given: between
-- quotes, with these quotes, backslashes and every hidden character escaped.
import YieldVault.Text.Marks

namespace YieldVault.Text

/-- The lower-case hexadecimal digits of a number, without leading zeros. -/
def hexText (n : Nat) : List Char := Nat.toDigits 16 n

/-- How text between quotes of one kind shows a character. -/
def quotedChar (quote c : Char) : List Char :=
  if c = quote ∨ c = '\\' then ['\\', c]
  else if c = '\n' then ['\\', 'n']
  else if c = '\r' then ['\\', 'r']
  else if c = '\t' then ['\\', 't']
  else if c.toNat = 0 then ['\\', '0']
  else if isHidden c then ['\\', 'u', '\x7b'] ++ hexText c.toNat ++ ['\x7d']
  else [c]

/-- A text between double quotes. -/
def quoted (text : String) : String :=
  String.ofList ('"' :: text.toList.flatMap (quotedChar '"') ++ ['"'])

/-- A character between single quotes. -/
def quotedLetter (c : Char) : String := String.ofList ('\x27' :: quotedChar '\x27' c ++ ['\x27'])

end YieldVault.Text
