-- Versions of the software of a node: three numbers, perhaps the name of a
-- pre-release after a dash, and perhaps that of a build after a plus sign.
import YieldVault.Text.Blank
import YieldVault.Text.Quoted

namespace YieldVault

namespace Version

/-- The parts of a version. -/
inductive Part
  | major
  | minor
  | patch
  | preRelease
  | build
  deriving DecidableEq, Repr

def Part.text : Part → String
  | major => "major version number"
  | minor => "minor version number"
  | patch => "patch version number"
  | preRelease => "pre-release identifier"
  | build => "build metadata"

/-- Why a text is no version. -/
inductive Fault
  | empty
  | missing (part : Part)
  | unexpected (part : Part) (c : Char)
  | unexpectedAfter (part : Part) (c : Char)
  | leadingZero (part : Part)
  | tooLarge (part : Part)
  | emptySegment (part : Part)
  deriving DecidableEq, Repr

def Fault.message : Fault → String
  | empty => "empty string, expected a semver version"
  | missing part => s!"unexpected end of input while parsing {part.text}"
  | unexpected part c => s!"unexpected character {Text.quotedLetter c} while parsing {part.text}"
  | unexpectedAfter part c => s!"unexpected character {Text.quotedLetter c} after {part.text}"
  | leadingZero part => s!"invalid leading zero in {part.text}"
  | tooLarge part => s!"value of {part.text} exceeds u64::MAX"
  | emptySegment part => s!"empty identifier segment in {part.text}"

/-- Whether a numeral of several digits starts with a zero. -/
def hasLeadingZero (digits : List Char) : Bool := digits.head? == some '0' && 1 < digits.length

/-- What follows a number. -/
def afterNumber (part : Part) (cs : List Char) : Except Fault (List Char) :=
  let digits := cs.takeWhile Char.isDigit
  let rest := cs.dropWhile Char.isDigit
  if digits.isEmpty then
    .error (match rest with
      | [] => .missing part
      | c :: _ => .unexpected part c)
  else if hasLeadingZero digits then .error (.leadingZero part)
  else if UInt64.size ≤ digits.foldl (fun n c => 10 * n + (c.toNat - 48)) 0 then
    .error (.tooLarge part)
  else .ok rest

/-- What follows a number and the point behind it. -/
def afterPoint (part : Part) (cs : List Char) : Except Fault (List Char) := do
  match ← afterNumber part cs with
  | '.' :: rest => pure rest
  | c :: _ => throw (.unexpectedAfter part c)
  | [] => throw (.missing part)

/-- The characters of names and of the points in them. -/
def isNameChar (c : Char) : Bool := c.isAlphanum || c == '-' || c == '.'

/-- Checks a segment of a name. Numerals in the name of a pre-release have no leading zeros. -/
def checkSegment (part : Part) (segment : String) : Except Fault Unit :=
  if segment.isEmpty then .error (.emptySegment part)
  else if part = .preRelease && segment.toList.all Char.isDigit
      && hasLeadingZero segment.toList then
    .error (.leadingZero part)
  else .ok ()

/-- What follows a name, which may be made of segments with points between them. -/
def afterName (part : Part) (cs : List Char) : Except Fault (List Char) := do
  (Text.pieces '.' (String.ofList (cs.takeWhile isNameChar))).forM (checkSegment part)
  pure (cs.dropWhile isNameChar)

/-- What follows the name of a part, if its mark is next, with the part that came last. -/
def afterMarked (mark : Char) (part before : Part) (cs : List Char) :
    Except Fault (Part × List Char) :=
  match cs with
  | c :: rest => if c = mark then (afterName part rest).map (part, ·) else .ok (before, cs)
  | [] => .ok (before, [])

/-- Tells whether a text is a version. -/
def check (text : String) : Except Fault Unit := do
  if text.isEmpty then throw .empty
  let cs ← afterPoint .major text.toList
  let cs ← afterPoint .minor cs
  let cs ← afterNumber .patch cs
  let (last, cs) ← afterMarked '-' .preRelease .patch cs
  let (last, cs) ← afterMarked '+' .build last cs
  match cs with
  | [] => pure ()
  | c :: _ => throw (.unexpectedAfter last c)

end Version

end YieldVault
