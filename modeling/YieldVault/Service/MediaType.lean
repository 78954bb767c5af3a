-- Media types, as a header names them: a type, a subtype, and perhaps
-- parameters. A subtype may end in a suffix after its last plus sign.
namespace YieldVault

/-- A media type in lower case. Parameters are looked at but not kept. -/
structure MediaType where
  type : String
  subtype : String
  suffix : Option String
  deriving DecidableEq, Repr

namespace MediaType

/-- The characters of a token. -/
def isToken (c : Char) : Bool :=
  c.isAlphanum || "!#$%&'*+-.^_`|~".toList.contains c

/-- The characters that may stand in a quoted value. -/
def isQuotable (c : Char) : Bool := 32 ≤ c.toNat && c.toNat != 127

/-- What follows a quoted value, after its opening quote. A backslash is a character like any
other, and a quote that comes first is part of the value. -/
def afterQuoted? : (isFirst : Bool) → List Char → Option (List Char)
  | _, [] => none
  | isFirst, '"' :: rest => if isFirst then afterQuoted? false rest else some rest
  | _, c :: rest => if isQuotable c then afterQuoted? false rest else none

/-- What follows the value of a parameter, up to the next parameter. -/
def afterValue? (cs : List Char) : Option (List Char) :=
  match cs with
  | '"' :: rest => do
    let rest ← afterQuoted? true rest
    match rest.dropWhile (· = ' ') with
    | [] => some []
    | ';' :: rest => some rest
    | _ => none
  | cs =>
    match cs.dropWhile isToken with
    | [] => some []
    | ';' :: rest => if (cs.takeWhile isToken).isEmpty then none else some rest
    | _ => none

/-- Whether a text is a list of parameters. -/
def areParameters : (fuel : Nat) → List Char → Bool
  | 0, _ => false
  | fuel + 1, cs =>
    match cs with
    | [] => true
    | ' ' :: rest => areParameters fuel rest
    | cs =>
      match cs.dropWhile isToken with
      | '=' :: rest =>
        if (cs.takeWhile isToken).isEmpty then false
        else
          match afterValue? rest with
          | some rest => areParameters fuel rest
          | none => false
      | _ => false

/-- The part before the last plus sign that is not the first character, and the part after it. -/
def splitSuffix (subtype : List Char) : List Char × Option (List Char) :=
  let suffix := (subtype.reverse.takeWhile (· ≠ '+')).reverse
  let before := subtype.take (subtype.length - suffix.length - 1)
  if suffix.length < subtype.length ∧ before ≠ [] then (before, some suffix) else (subtype, none)

/-- Reads a media type. -/
def ofText? (text : String) : Option MediaType :=
  let cs := text.toList.map Char.toLower
  let type := cs.takeWhile fun c => isToken c && c != '/'
  match cs.dropWhile fun c => isToken c && c != '/' with
  | '/' :: rest =>
    let subtype := rest.takeWhile isToken
    let isSound := match rest.dropWhile isToken with
      | [] => true
      | ';' :: rest => !subtype.isEmpty && areParameters (rest.length + 1) rest
      | _ => false
    if type.isEmpty || !isSound then none
    else
      let (subtype, suffix) := splitSuffix subtype
      some ⟨String.ofList type, String.ofList subtype, suffix.map String.ofList⟩
  | _ => none

/-- Whether content of this type is JSON. -/
def isJson (type : MediaType) : Bool :=
  type.type == "application" && (type.subtype == "json" || type.suffix == some "json")

end MediaType

end YieldVault
