-- Decoding: JSON values as values of the types that are expected of them. What
-- is wrong with a text is found in document order, so a value of the wrong shape
-- counts even if the text later stops being JSON.
import YieldVault.Json.Reader
import YieldVault.Key
import YieldVault.Weights

namespace YieldVault.Json

/-- Why a text does not hold a value. -/
inductive Fault
  /-- The text is not JSON at a place that had to be read. -/
  | malformed (message : String)
  /-- The text is JSON of another shape. -/
  | mismatch (message : String)
  deriving DecidableEq, Repr

def Fault.message : Fault → String
  | .malformed message => message
  | .mismatch message => message

/-- The fault of a value of an unexpected type. -/
def unexpected {α : Type} (json : Json) (expected : String) : Except Fault α :=
  match json.describe? with
  | some found => .error (.mismatch s!"invalid type: {found}, expected {expected}")
  | none => .error (.malformed "expected value")

/-! ## Single values -/

def readText : Json → Except Fault String
  | .text value => .ok value
  | json => json.unexpected "a string"

def outOfWord {α : Type} (found : String) (bits : Nat) : Except Fault α :=
  .error (.mismatch s!"invalid value: integer `{found}`, expected u{bits}")

/-- A whole number of so many bits. -/
def readWord (bits : Nat) : Json → Except Fault Nat
  | .number (.natural n) => if n < Nat.pow 2 bits then .ok n else outOfWord (toString n) bits
  | .number (.negative n) => outOfWord s!"-{n}" bits
  | json => json.unexpected s!"u{bits}"

/-- The names of a list, each between backquotes. -/
def nameList (names : List String) : String :=
  ", ".intercalate (names.map fun name => s!"`{name}`")

/-- The venue of a name. -/
def venueOfName (name : String) : Except Fault Venue :=
  match Venue.ofName? name with
  | some venue => .ok venue
  | none => .error (.mismatch
      s!"unknown variant `{name}`, expected one of {nameList (Venue.all.map (·.name))}")

/-- A venue: its name, or an object whose one member has the name and holds nothing. -/
def readVenue : Json → Except Fault Venue
  | .text name => venueOfName name
  | .object ((some name, value) :: rest) => do
    let venue ← venueOfName name
    match value with
    | .null => if rest.isEmpty then pure venue else throw (.malformed "expected value")
    | value => value.unexpected "unit"
  | _ => .error (.malformed "expected value")

/-- A key in its text. -/
def readKey (json : Json) : Except Fault Key := do
  let text ← json.readText
  match Key.ofText text with
  | .ok key => pure key
  | .error fault => throw (.mismatch s!"{text}: {fault.message}")

/-- A value that may be null. -/
def readOption {α : Type} (read : Json → Except Fault α) : Json → Except Fault (Option α)
  | .null => .ok none
  | json => some <$> read json

/-- The items of an array. -/
def readItems {α : Type} (read : Json → Except Fault α) : Json → Except Fault (List α)
  | .array items => items.mapM read
  | json => json.unexpected "a sequence"

/-- The fault of an array with items that nothing is read from. -/
def tooLong {α : Type} : Except Fault α := .error (.malformed "trailing characters")

/-- The fault of an array that ends too early. -/
def tooShort {α : Type} (length : Nat) (expected : String) : Except Fault α :=
  .error (.mismatch s!"invalid length {length}, expected {expected}")

/-- An array of two. -/
def readPair {α β : Type} (first : Json → Except Fault α) (second : Json → Except Fault β) :
    Json → Except Fault (α × β)
  | .array [] => tooShort 0 "a tuple of size 2"
  | .array (a :: rest) => do
    let a ← first a
    match rest with
    | [] => tooShort 1 "a tuple of size 2"
    | b :: rest =>
      let b ← second b
      if rest.isEmpty then pure (a, b) else tooLong
  | json => json.unexpected "a tuple of size 2"

/-- Weights: an array of pairs of a venue and its basis points. -/
def readWeights (json : Json) : Except Fault Weights := do
  let pairs ← json.readItems (readPair readVenue (readWord 16))
  match Weights.ofList (pairs.map fun (venue, bps) => (venue, UInt16.ofNat bps)) with
  | .ok weights => pure weights
  | .error e => throw (.mismatch e.message)

/-- Weights as they are written: a pair for each weighted venue, in venue order. -/
def ofWeights (weights : Weights) : Json :=
  .array (weights.toList.map fun (venue, bps) => .array [.text venue.name, .nat bps.toNat])

/-! ## Records -/

/-- A field of a record whose values are all of one type. -/
structure Member (β : Type) where
  name : String
  read : Json → Except Fault β
  /-- What stands for the field where it is missing. -/
  absent : Option β

/-- A field that must be there. -/
def Member.required {β : Type} (name : String) (read : Json → Except Fault β) : Member β :=
  ⟨name, read, none⟩

/-- A field that need not be there. -/
def Member.optional {β : Type} (name : String) (read : Json → Except Fault β) (absent : β) :
    Member β :=
  ⟨name, read, some absent⟩

/-- How long an array of fields is called. -/
def elements (count : Nat) : String := if count = 1 then "1 element" else s!"{count} elements"

/-- Takes in one member of an object, whose name has to be readable. Members that are no field are
passed over. -/
def takeMember {β : Type} (fields : List (Member β)) (found : List (String × β)) :
    Option String × Json → Except Fault (List (String × β))
  | (none, _) => .error (.malformed "expected value")
  | (some name, json) =>
    match fields.find? (·.name = name) with
    | some field =>
      if found.any (·.1 = field.name) then
        .error (.mismatch s!"duplicate field `{field.name}`")
      else (field.read json).map fun value => (field.name, value) :: found
    | none => if json.isWhole then .ok found else .error (.malformed "expected value")

/-- The value of a field once all members are taken in. -/
def settle {β : Type} (found : List (String × β)) (field : Member β) : Except Fault β :=
  match found.find? (·.1 = field.name) with
  | some (_, value) => .ok value
  | none =>
    match field.absent with
    | some value => .ok value
    | none => .error (.mismatch s!"missing field `{field.name}`")

/-- The values of the fields from an object, in the order of the fields. -/
def readMembers {β : Type} (fields : List (Member β)) (members : List (Option String × Json)) :
    Except Fault (List β) := do
  let found ← members.foldlM (takeMember fields) []
  fields.mapM (settle found)

/-- The values of the fields from an array in their order, and the items left over. -/
def readPositions {β : Type} (expected : String) :
    (count : Nat) → List (Member β) → List Json → Except Fault (List β × List Json)
  | _, [], items => .ok ([], items)
  | count, field :: fields, [] => do
    let value ← match field.absent with
      | some value => pure value
      | none => tooShort count expected
    let (values, items) ← readPositions expected (count + 1) fields []
    pure (value :: values, items)
  | count, field :: fields, item :: items => do
    let value ← field.read item
    let (values, items) ← readPositions expected (count + 1) fields items
    pure (value :: values, items)

/-- The values of the fields of a record, from an object or from an array. -/
def readRecord {β : Type} (name : String) (fields : List (Member β)) :
    Json → Except Fault (List β)
  | .object members => readMembers fields members
  | .array items => do
    let expected := s!"struct {name} with {elements fields.length}"
    let (values, rest) ← readPositions expected 0 fields items
    if rest.isEmpty then pure values else tooLong
  | json => json.unexpected s!"struct {name}"

/-! ## Texts -/

/-- Reads a whole text: a value, and nothing after it. -/
def Document.read {α : Type} (document : Document) (decode : Json → Except Fault α) :
    Except Fault α := do
  let value ← decode document.value
  if document.ends then pure value else throw (.malformed "trailing characters")

/-- The message of a text that could not be read. What is wrong with a text that is not JSON is
not told apart. -/
def Document.message (document : Document) (fault : Fault) : String :=
  if document.isJson then fault.message else "syntax"

/-- Reads a whole text, or tells why it cannot be read. -/
def readDocument {α : Type} (text : String) (decode : Json → Except Fault α) :
    Except String α :=
  let document := Document.ofText text
  (document.read decode).mapError document.message

end YieldVault.Json
