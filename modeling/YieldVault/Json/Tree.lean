-- Decoding JSON trees: values that are at hand as a whole before anything is
-- looked for in them. The members of an object come in the order of their names,
-- and the last of one name counts, so that is how their faults are found.
import YieldVault.Json.Decode

namespace YieldVault.Json.Tree

/-- A value of a tree, or what is wrong with it. -/
abbrev Reading := Except String

/-- What messages call a value. -/
def describe (json : Json) : String := json.describe?.getD "null"

def unexpected {α : Type} (found expected : String) : Reading α :=
  .error s!"invalid type: {found}, expected {expected}"

def wrongLength {α : Type} (length : Nat) (expected : String) : Reading α :=
  .error s!"invalid length {length}, expected {expected}"

/-! ## Single values -/

/-- A value of any type. -/
def readAny (json : Json) : Reading Json := .ok json

def readText : Json → Reading String
  | .text value => .ok value
  | json => unexpected (describe json) "a string"

def readBool : Json → Reading Bool
  | .bool value => .ok value
  | json => unexpected (describe json) "a boolean"

def readNothing : Json → Reading Unit
  | .null => .ok ()
  | json => unexpected (describe json) "unit"

/-- A whole number below a limit. -/
def readBelow (limit : Nat) (type : String) : Json → Reading Nat
  | .number (.natural n) =>
    if n < limit then .ok n else .error s!"invalid value: integer `{n}`, expected {type}"
  | .number (.negative n) => .error s!"invalid value: integer `-{n}`, expected {type}"
  | json => unexpected (describe json) type

def readByte (json : Json) : Reading UInt8 := UInt8.ofNat <$> readBelow UInt8.size "u8" json

def readWord32 (json : Json) : Reading UInt32 :=
  UInt32.ofNat <$> readBelow UInt32.size "u32" json

def readWord64 (json : Json) : Reading UInt64 :=
  UInt64.ofNat <$> readBelow UInt64.size "u64" json

/-- A whole number that counts something. -/
def readCount (json : Json) : Reading Nat := readBelow UInt64.size "usize" json

/-! ## Values of values -/

section
variable {α β σ : Type}

/-- A value that may be null. -/
def readOption (read : Json → Reading α) : Json → Reading (Option α)
  | .null => .ok none
  | json => some <$> read json

/-- The items of an array. -/
def readItems (read : Json → Reading α) : Json → Reading (List α)
  | .array items => items.mapM read
  | json => unexpected (describe json) "a sequence"

/-- The fault of an array with items that nothing is read from. -/
def tooLong (length : Nat) : Reading α := wrongLength length "fewer elements in array"

/-- The items of an array of two. -/
def readTwo (first : Json → Reading α) (second : Json → Reading β) (expected : String) :
    List Json → Reading (α × β)
  | [] => wrongLength 0 expected
  | a :: rest => do
    let a ← first a
    match rest with
    | [] => wrongLength 1 expected
    | b :: rest =>
      let b ← second b
      if rest.isEmpty then pure (a, b) else tooLong (rest.length + 2)

/-- An array of two. -/
def readPair (first : Json → Reading α) (second : Json → Reading β) : Json → Reading (α × β)
  | .array items => readTwo first second "a tuple of size 2" items
  | json => unexpected (describe json) "a tuple of size 2"

/-- The first of several readings that succeeds. -/
def readEither (name : String) : List (Json → Reading α) → Json → Reading α
  | [], _ => .error s!"data did not match any variant of untagged enum {name}"
  | read :: others, json =>
    match read json with
    | .ok value => .ok value
    | .error _ => readEither name others json

/-! ## Records -/

/-- The last member of an object under a name. -/
def member? (name : String) (members : List (Option String × Json)) : Option Json :=
  (members.reverse.find? (·.1 = some name)).map (·.2)

/-- A field of a record: what its value changes in a record that is blank at first. -/
structure RecordField (σ : Type) where
  name : String
  isOptional : Bool
  take : Json → Reading (σ → σ)

/-- A field that must be there. -/
def RecordField.required (name : String) (read : Json → Reading α) (set : σ → α → σ) :
    RecordField σ :=
  ⟨name, false, fun json => (read json).map fun value record => set record value⟩

/-- A field that need not be there, and may be null. -/
def RecordField.optional (name : String) (read : Json → Reading α) (set : σ → α → σ) :
    RecordField σ :=
  ⟨name, true, fun json => (readOption read json).map fun value record =>
    value.elim record (set record)⟩

/-- A field that must be there and is not kept. -/
def RecordField.checked (name : String) (read : Json → Reading α) : RecordField σ :=
  .required name read fun record _ => record

/-- A field that need not be there and is not kept. -/
def RecordField.mayBe (name : String) (read : Json → Reading α) : RecordField σ :=
  .optional name read fun record _ => record

/-- Takes in a field from the members of an object, if it is there. -/
def takeMember (members : List (Option String × Json)) (record : σ) (field : RecordField σ) :
    Reading σ :=
  match member? field.name members with
  | some json => (field.take json).map fun change => change record
  | none => .ok record

/-- A record from the members of an object. What is missing is told last, in the order of the
fields. -/
def readMembers (blank : σ) (fields : List (RecordField σ))
    (members : List (Option String × Json)) : Reading σ := do
  let record ← (fields.mergeSort fun a b => a.name ≤ b.name).foldlM (takeMember members) blank
  fields.forM fun field =>
    if field.isOptional || (member? field.name members).isSome then pure ()
    else throw s!"missing field `{field.name}`"
  pure record

/-- A record from the items of an array, of which there is one for each field. -/
def readPositions (expected : String) :
    (taken : Nat) → σ → List (RecordField σ) → List Json → Reading σ
  | _, record, [], [] => .ok record
  | taken, _, [], items => tooLong (taken + items.length)
  | taken, _, _ :: _, [] => wrongLength taken expected
  | taken, record, field :: fields, item :: items => do
    let change ← field.take item
    readPositions expected (taken + 1) (change record) fields items

/-- A record, from an object or from an array. -/
def readRecord (name : String) (blank : σ) (fields : List (RecordField σ)) : Json → Reading σ
  | .object members => readMembers blank fields members
  | .array items =>
    readPositions s!"struct {name} with {elements fields.length}" 0 blank fields items
  | json => unexpected (describe json) s!"struct {name}"

/-! ## Cases -/

/-- What goes with the name of a case. -/
inductive Payload (α : Type)
  | nothing (value : α)
  | one (read : Json → Reading α)
  /-- The items of an array, and what messages call the case. -/
  | several (call : String) (read : List Json → Reading α)
  | fields (read : List (Option String × Json) → Reading α)

/-- One of several cases that a value may be. -/
structure Case (α : Type) where
  name : String
  payload : Payload α

/-- A case by its name alone. -/
def Payload.bare : Payload α → Reading α
  | nothing value => .ok value
  | one _ => unexpected "unit variant" "newtype variant"
  | several .. => unexpected "unit variant" "tuple variant"
  | fields _ => unexpected "unit variant" "struct variant"

/-- A case with what goes with it. -/
def Payload.read : Payload α → Json → Reading α
  | nothing value, json => (readNothing json).map fun _ => value
  | one read, json => read json
  | several call _, .array [] => unexpected "null" call
  | several _ read, .array items => read items
  | several .., json => unexpected (describe json) "tuple variant"
  | fields read, .object members => read members
  | fields _, json => unexpected (describe json) "struct variant"

/-- The names of a list, as what may stand at a place. -/
def choiceOf : List String → String
  | [name] => s!"`{name}`"
  | [first, second] => s!"`{first}` or `{second}`"
  | names => s!"one of {nameList names}"

def findCase (cases : List (Case α)) (name : String) : Reading (Payload α) :=
  match cases.find? (·.name = name) with
  | some found => .ok found.payload
  | none =>
    .error s!"unknown variant `{name}`, expected {choiceOf (cases.map (·.name))}"

/-- The only member of an object. -/
def soleMember? (members : List (Option String × Json)) : Option (String × Json) :=
  match members.getLast? with
  | some (some name, json) => if members.all (·.1 = some name) then some (name, json) else none
  | _ => none

/-- One of several cases: its name alone, or an object whose only member has that name. -/
def readCase (cases : List (Case α)) : Json → Reading α
  | .text name => do
    let payload ← findCase cases name
    payload.bare
  | .object members =>
    match soleMember? members with
    | some (name, json) => do
      let payload ← findCase cases name
      payload.read json
    | none => .error "invalid value: map, expected map with a single key"
  | json => unexpected (describe json) "string or map"

/-- A case with nothing to it. -/
def Case.named (name : String) (value : α) : Case α := ⟨name, .nothing value⟩

end

end YieldVault.Json.Tree
