-- Reading JSON text. The reader never fails: where a text stops being JSON, so
-- does the value. Every step consumes a character, so the length of the text
-- bounds the nesting of steps.
import YieldVault.Json

namespace YieldVault.Json

/-- The characters that may stand between tokens. -/
def isSpace (c : Char) : Bool := c = ' ' || c = '\n' || c = '\t' || c = '\r'

/-- The text from its first token on. -/
def skipSpace (cs : List Char) : List Char := cs.dropWhile isSpace

/-! ## Numbers -/

/-- The numbers below this are kept exactly. -/
def wordLimit : Nat := UInt64.size

/-- Reads digits into a significand as long as it stays a word; gives it with the digits read
and what follows. -/
def gather (significand : Nat) : (count : Nat) → List Char → Nat × Nat × List Char
  | count, [] => (significand, count, [])
  | count, c :: rest =>
    if !c.isDigit then (significand, count, c :: rest)
    else
      let next := 10 * significand + (c.toNat - 48)
      if next < wordLimit then gather next (count + 1) rest
      else (significand, count, c :: rest)

/-- Reads the exponent after its letter: a sign, and at least one digit. -/
def exponent? (below : Bool) (significand : Nat) (power : Int) (cs : List Char) :
    Option (Number × List Char) :=
  let (isDown, cs) := match cs with
    | '-' :: rest => (true, rest)
    | '+' :: rest => (false, rest)
    | cs => (false, cs)
  let digits := cs.takeWhile Char.isDigit
  if digits.isEmpty then none
  else
    let n : Int := digits.foldl (fun n c => 10 * n + (c.toNat - 48 : Int)) 0
    some (.real below significand (if isDown then power - n else power + n),
      cs.dropWhile Char.isDigit)

/-- Reads what may follow the digits of a real: an exponent. -/
def afterDigits? (below : Bool) (significand : Nat) (power : Int) :
    List Char → Option (Number × List Char)
  | 'e' :: rest => exponent? below significand power rest
  | 'E' :: rest => exponent? below significand power rest
  | rest => some (.real below significand power, rest)

/-- Reads the digits after a point, of which there has to be one. Those that no longer fit are
passed over. -/
def fraction? (below : Bool) (significand : Nat) (power : Int) (cs : List Char) :
    Option (Number × List Char) :=
  if cs.takeWhile Char.isDigit = [] then none
  else
    let (significand, count, rest) := gather significand 0 cs
    afterDigits? below significand (power - count) (rest.dropWhile Char.isDigit)

/-- The whole number of a sign and a word; zero below zero and what a signed word cannot hold are
reals. -/
def wholeOf (below : Bool) (n : Nat) : Number :=
  if !below then .natural n
  else if n = 0 ∨ wordLimit / 2 < n then .real true n 0
  else .negative n

/-- Reads what may follow the whole part of a number. -/
def afterWhole? (below : Bool) (significand : Nat) (power : Int) :
    List Char → Option (Number × List Char)
  | '.' :: rest => fraction? below significand power rest
  | 'e' :: rest => exponent? below significand power rest
  | 'E' :: rest => exponent? below significand power rest
  | rest => if power = 0 then some (wholeOf below significand, rest)
    else some (.real below significand power, rest)

/-- Reads a number after its sign. A zero is followed by no other digit of the whole part. -/
def unsigned? (below : Bool) : List Char → Option (Number × List Char)
  | '0' :: rest =>
    if (rest.takeWhile Char.isDigit).isEmpty then afterWhole? below 0 0 rest else none
  | cs =>
    if (cs.takeWhile Char.isDigit).isEmpty then none
    else
      let (significand, _, rest) := gather 0 0 cs
      let dropped := (rest.takeWhile Char.isDigit).length
      afterWhole? below significand dropped (rest.dropWhile Char.isDigit)

/-- Reads a number. -/
def number? : List Char → Option (Number × List Char)
  | '-' :: rest => unsigned? true rest
  | cs => unsigned? false cs

/-! ## Strings -/

/-- What a string is written in: characters, and units of four hexadecimal digits. -/
inductive Piece where
  | char (c : Char)
  | unit (n : Nat)
  deriving DecidableEq, Repr

/-- The unit of four digits. -/
def unit? (a b c d : Char) : Option Nat := do
  let a ← Bytes.hexValue? a
  let b ← Bytes.hexValue? b
  let c ← Bytes.hexValue? c
  let d ← Bytes.hexValue? d
  pure (((a * 16 + b) * 16 + c) * 16 + d)

/-- The character of a one-letter escape. -/
def escaped? : Char → Option Char
  | '"' => some '"'
  | '\\' => some '\\'
  | '/' => some '/'
  | 'b' => some (Char.ofNat 8)
  | 'f' => some (Char.ofNat 12)
  | 'n' => some '\n'
  | 'r' => some '\r'
  | 't' => some '\t'
  | _ => none

/-- Reads the pieces of a string after its opening quote, up to the closing one. The pieces read
before are given last first. -/
def pieces? (soFar : List Piece) : List Char → Option (List Piece × List Char)
  | [] => none
  | c :: rest =>
    if c = '"' then some (soFar.reverse, rest)
    else if c = '\\' then
      match rest with
      | 'u' :: a :: b :: c :: d :: rest =>
        match unit? a b c d with
        | some n => pieces? (.unit n :: soFar) rest
        | none => none
      | e :: rest =>
        match escaped? e with
        | some c => pieces? (.char c :: soFar) rest
        | none => none
      | [] => none
    else if c.toNat < 32 then none
    else pieces? (.char c :: soFar) rest

def isHighHalf (unit : Nat) : Bool := 0xD800 ≤ unit && unit < 0xDC00

def isLowHalf (unit : Nat) : Bool := 0xDC00 ≤ unit && unit < 0xE000

/-- The character above the first plane that two halves make. -/
def joinHalves (high low : Nat) : Char :=
  Char.ofNat (0x10000 + (high - 0xD800) * 0x400 + (low - 0xDC00))

/-- The characters of the pieces, after those found before, which are given last first. A half
by itself stands for no character, and then there is no text. -/
def characters? (soFar : List Char) : List Piece → Option (List Char)
  | [] => some soFar.reverse
  | .char c :: rest => characters? (c :: soFar) rest
  | .unit n :: rest =>
    if isLowHalf n then none
    else if isHighHalf n then
      match rest with
      | .unit low :: rest =>
        if isLowHalf low then characters? (joinHalves n low :: soFar) rest else none
      | _ => none
    else characters? (Char.ofNat n :: soFar) rest

/-- Reads a string after its opening quote: its text, if it has one, and what follows. -/
def string? (cs : List Char) : Option (Option String × List Char) :=
  (pieces? [] cs).map fun (pieces, rest) => ((characters? [] pieces).map String.ofList, rest)

/-- A string as a value. -/
def ofString : Option String → Json
  | some content => .text content
  | none => .noText

/-! ## Values -/

/-- What follows a word that the text starts with. -/
def afterWord? : (word cs : List Char) → Option (List Char)
  | [], cs => some cs
  | _ :: _, [] => none
  | w :: word, c :: cs => if w = c then afterWord? word cs else none

/-- Reads a value that nests no other. -/
def scalar? (cs : List Char) : Option (Json × List Char) :=
  match cs with
  | '"' :: rest => (string? rest).map fun (content, rest) => (ofString content, rest)
  | 'n' :: rest => (afterWord? ['u', 'l', 'l'] rest).map (.null, ·)
  | 't' :: rest => (afterWord? ['r', 'u', 'e'] rest).map (.bool true, ·)
  | 'f' :: rest => (afterWord? ['a', 'l', 's', 'e'] rest).map (.bool false, ·)
  | _ => (number? cs).map fun (n, rest) => (.number n, rest)

mutual

/-- Reads a value. Gives with it what follows, unless the value is cut. -/
def value : (fuel : Nat) → List Char → Json × Option (List Char)
  | 0, _ => (.cut, none)
  | fuel + 1, cs =>
    match skipSpace cs with
    | '[' :: rest =>
      match skipSpace rest with
      | ']' :: rest => (.array [], some rest)
      | rest =>
        let (items, rest) := items fuel rest
        (.array items, rest)
    | '\x7b' :: rest =>
      match skipSpace rest with
      | '\x7d' :: rest => (.object [], some rest)
      | rest =>
        let (members, rest) := members fuel rest
        (.object members, rest)
    | cs =>
      match scalar? cs with
      | some (json, rest) => (json, some rest)
      | none => (.cut, none)

/-- Reads the items of an array, of which there is at least one, and its closing bracket. -/
def items : (fuel : Nat) → List Char → List Json × Option (List Char)
  | 0, _ => ([.cut], none)
  | fuel + 1, cs =>
    match value fuel cs with
    | (item, none) => ([item], none)
    | (item, some rest) =>
      match skipSpace rest with
      | ',' :: rest =>
        let (others, rest) := items fuel rest
        (item :: others, rest)
      | ']' :: rest => ([item], some rest)
      | _ => ([item, .cut], none)

/-- Reads the members of an object, of which there is at least one, and its closing bracket. -/
def members : (fuel : Nat) → List Char → List (Option String × Json) × Option (List Char)
  | 0, _ => ([(none, .cut)], none)
  | fuel + 1, cs =>
    match skipSpace cs with
    | '"' :: rest =>
      match string? rest with
      | some (name, rest) =>
        match skipSpace rest with
        | ':' :: rest =>
          match value fuel rest with
          | (item, none) => ([(name, item)], none)
          | (item, some rest) =>
            match skipSpace rest with
            | ',' :: rest =>
              let (others, rest) := members fuel rest
              ((name, item) :: others, rest)
            | '\x7d' :: rest => ([(name, item)], some rest)
            | _ => ([(name, item), (none, .cut)], none)
        | _ => ([(name, .cut)], none)
      | none => ([(none, .cut)], none)
    | _ => ([(none, .cut)], none)

end

/-- A text read as JSON: its value, and whether only blanks follow it. -/
structure Document where
  value : Json
  ends : Bool

/-- Reads a text. -/
def Document.ofChars (cs : List Char) : Document :=
  let (json, rest) := Json.value (2 * cs.length + 1) cs
  ⟨json, (rest.map fun rest => (skipSpace rest).isEmpty).getD false⟩

def Document.ofText (text : String) : Document := .ofChars text.toList

/-- Whether the text is JSON, all of it. -/
def Document.isJson (document : Document) : Bool :=
  document.ends && document.value.isReadable maxDepth

end YieldVault.Json
