-- JSON values as they stand in a text, in document order, and their compact
-- text. A text that stops being JSON somewhere is kept up to there: the value
-- `cut` stands for the place, and nothing stands after it.
import YieldVault.Bytes
import YieldVault.Text.Quoted
import YieldVault.Text.Shortest

namespace YieldVault

namespace Json

/-- A number of a text. Whole numbers that fit a 64-bit word are exact; all others are reals,
kept as the digits and the power of ten that were read. -/
inductive Number
  | natural (n : Nat)
  /-- A whole number below zero, by its distance from it. -/
  | negative (n : Nat)
  | real (below : Bool) (significand : Nat) (power : Int)
  deriving DecidableEq, Repr

/-- The largest power of ten that a real holds. -/
def topPower : Nat := 308

/-- A real divided by a power of ten, in steps that a real can hold. -/
def divideDown (x : Float) (power : Nat) : Float :=
  if power ≤ topPower then x / Float.ofScientific 1 false power
  else if x == 0 then x
  else divideDown (x / Float.ofScientific 1 false topPower) (power - topPower)
termination_by power
decreasing_by simp only [topPower] at *; omega

/-- The real of digits and a power of ten, unless it is out of range. -/
def real? (below : Bool) (significand : Nat) (power : Int) : Option Float :=
  let x := Float.ofNat significand
  let magnitude :=
    if power < 0 then some (divideDown x (-power).toNat)
    else if power ≤ topPower then some (x * Float.ofScientific 1 false power.toNat)
    else if significand = 0 then some x
    else none
  (magnitude.filter Float.isFinite).map fun x => if below then -x else x

end Json

/-- A JSON value. The name of a member is missing where its escapes stand for no text, and where
the text stops being JSON before it. -/
inductive Json
  | null
  | bool (value : Bool)
  | number (value : Json.Number)
  | text (value : String)
  /-- A string whose escapes stand for no text. It can be passed over but not read. -/
  | noText
  | array (items : List Json)
  | object (members : List (Option String × Json))
  /-- The text stops being JSON here. -/
  | cut
  deriving Repr

namespace Json

instance : Inhabited Json := ⟨null⟩

/-- A whole number as a value. -/
def nat (n : Nat) : Json := .number (.natural n)

/-- An object of named members. -/
def ofFields (fields : List (String × Json)) : Json :=
  .object (fields.map fun (name, value) => (some name, value))

/-- How messages call a value of an unexpected type; nothing if it cannot be read. -/
def describe? : Json → Option String
  | .null => some "null"
  | .bool value => some s!"boolean `{value}`"
  | .number (.natural n) => some s!"integer `{n}`"
  | .number (.negative n) => some s!"integer `-{n}`"
  | .number (.real below significand power) =>
    (real? below significand power).map fun x => s!"floating point `{Shortest.text x}`"
  | .text value => some s!"string {Text.quoted value}"
  | .noText => none
  | .array _ => some "sequence"
  | .object _ => some "map"
  | .cut => none

/-! ## Wholeness -/

mutual

/-- Whether the value ends where its text says: nothing in it is cut. -/
def isWhole : Json → Bool
  | .cut => false
  | .array items => areWhole items
  | .object members => membersAreWhole members
  | _ => true

def areWhole : List Json → Bool
  | [] => true
  | item :: rest => isWhole item && areWhole rest

def membersAreWhole : List (Option String × Json) → Bool
  | [] => true
  | (_, value) :: rest => isWhole value && membersAreWhole rest

end

mutual

/-- Whether every part of the value can be read, with arrays and objects nested at most `depth`
deep. -/
def isReadable (depth : Nat) : Json → Bool
  | .cut => false
  | .noText => false
  | .number (.real below significand power) => (real? below significand power).isSome
  | .array items => 0 < depth && areReadable (depth - 1) items
  | .object members => 0 < depth && membersAreReadable (depth - 1) members
  | _ => true

def areReadable (depth : Nat) : List Json → Bool
  | [] => true
  | item :: rest => isReadable depth item && areReadable depth rest

def membersAreReadable (depth : Nat) : List (Option String × Json) → Bool
  | [] => true
  | (name, value) :: rest =>
    name.isSome && isReadable depth value && membersAreReadable depth rest

end

/-- How deep the values of a text may nest. -/
def maxDepth : Nat := 127

/-! ## Compact text -/

/-- How the text of a string shows one character. -/
def escapeChar (c : Char) : List Char :=
  if c = '"' then ['\\', '"']
  else if c = '\\' then ['\\', '\\']
  else if c = '\n' then ['\\', 'n']
  else if c = '\r' then ['\\', 'r']
  else if c = '\t' then ['\\', 't']
  else if c.toNat = 8 then ['\\', 'b']
  else if c.toNat = 12 then ['\\', 'f']
  else if c.toNat < 32 then
    ['\\', 'u', '0', '0', Bytes.hexDigit (c.toNat / 16), Bytes.hexDigit (c.toNat % 16)]
  else [c]

/-- The text of a string. -/
def textOfString (value : String) : List Char :=
  '"' :: value.toList.flatMap escapeChar ++ ['"']

/-- The text of a number. -/
def textOfNumber : Number → List Char
  | .natural n => (toString n).toList
  | .negative n => '-' :: (toString n).toList
  | .real below significand power =>
    (if below then ['-'] else []) ++ (toString significand).toList
      ++ 'e' :: (toString power).toList

mutual

/-- The text of a value, without blanks. What has no text is written as null, or as an empty
name. -/
def textOf : Json → List Char
  | .null => ['n', 'u', 'l', 'l']
  | .bool true => ['t', 'r', 'u', 'e']
  | .bool false => ['f', 'a', 'l', 's', 'e']
  | .number n => textOfNumber n
  | .text value => textOfString value
  | .array items => '[' :: textOfItems items ++ [']']
  | .object members => '\x7b' :: textOfMembers members ++ ['\x7d']
  | .noText => ['n', 'u', 'l', 'l']
  | .cut => ['n', 'u', 'l', 'l']

def textOfItems : List Json → List Char
  | [] => []
  | [item] => textOf item
  | item :: rest => textOf item ++ ',' :: textOfItems rest

def textOfMembers : List (Option String × Json) → List Char
  | [] => []
  | [(name, value)] => textOfString (name.getD "") ++ ':' :: textOf value
  | (name, value) :: rest =>
    textOfString (name.getD "") ++ ':' :: textOf value ++ ',' :: textOfMembers rest

end

/-- The compact text of a value. -/
def compact (json : Json) : String := String.ofList json.textOf

end Json

end YieldVault
