-- Binary layouts: how a value stands in a run of bytes of fixed width. A layout
-- writes a value, reads one off the front of a byte string, and says where its
-- bytes are restricted. Reading stops at the first fault in layout order.
import YieldVault.Key
import YieldVault.Venue

namespace YieldVault

/-- Why bytes do not hold a value of a layout. -/
inductive LayoutFault
  /-- The bytes end inside the value. -/
  | endOfData
  /-- A truth value is neither 0 nor 1. -/
  | notBool (byte : UInt8)
  /-- A choice names none of its cases. -/
  | noSuchCase (byte : UInt8)
  deriving DecidableEq, Repr

/-- The wording of a fault. -/
def LayoutFault.message : LayoutFault → String
  | .endOfData => "Unexpected length of input"
  | .notBool byte => s!"Invalid bool representation: {byte.toNat}"
  | .noSuchCase byte => s!"Unexpected variant tag: {byte.toNat}"

/-- A layout of values of a type. -/
structure Layout (α : Type) where
  write : α → Bytes
  read : Bytes → Except LayoutFault (α × Bytes)
  /-- The number of bytes that every value takes. -/
  width : Nat
  /-- Offsets of restricted bytes, each with the bound it must stay below. -/
  guards : List (Nat × Nat)

namespace Layout

variable {α β : Type}

/-! ## Single values -/

/-- The first `count` bytes and what follows them. -/
def split (count : Nat) (bytes : Bytes) : Except LayoutFault (Bytes × Bytes) :=
  if bytes.length < count then .error .endOfData
  else .ok (bytes.take count, bytes.drop count)

/-- A number of `width` bytes, lowest first, as a value of a word type. -/
def word (width : Nat) (ofNat : Nat → α) (toNat : α → Nat) : Layout α where
  write value := Bytes.ofNat width (toNat value)
  read bytes := do
    let (digits, rest) ← split width bytes
    pure (ofNat (Bytes.toNat digits), rest)
  width := width
  guards := []

def uint8 : Layout UInt8 := word 1 UInt8.ofNat UInt8.toNat

def uint16 : Layout UInt16 := word 2 UInt16.ofNat UInt16.toNat

def uint32 : Layout UInt32 := word 4 UInt32.ofNat UInt32.toNat

def uint64 : Layout UInt64 := word 8 UInt64.ofNat UInt64.toNat

/-- A key, byte for byte. -/
def key : Layout Key where
  write value := value.bytes
  read bytes :=
    if h : bytes.length < 32 then .error .endOfData
    else .ok (⟨bytes.take 32, by simp; omega⟩, bytes.drop 32)
  width := 32
  guards := []

/-- A truth value: 0 or 1. -/
def bool : Layout Bool where
  write value := [if value then 1 else 0]
  read
    | [] => .error .endOfData
    | b :: rest =>
      if b = 0 then .ok (false, rest)
      else if b = 1 then .ok (true, rest)
      else .error (.notBool b)
  width := 1
  guards := [(0, 2)]

/-- One of a list of cases, by its place in the list. -/
def choice [DecidableEq α] (cases : List α) : Layout α where
  write value := [UInt8.ofNat (cases.findIdx (· = value))]
  read
    | [] => .error .endOfData
    | b :: rest =>
      match cases[b.toNat]? with
      | some value => .ok (value, rest)
      | none => .error (.noSuchCase b)
  width := 1
  guards := [(0, cases.length)]

/-! ## Values after one another -/

/-- Two values after one another. -/
def pair (first : Layout α) (second : Layout β) : Layout (α × β) where
  write value := first.write value.1 ++ second.write value.2
  read bytes := do
    let (a, rest) ← first.read bytes
    let (b, rest) ← second.read rest
    pure ((a, b), rest)
  width := first.width + second.width
  guards := first.guards ++ second.guards.map fun g => (first.width + g.1, g.2)

/-- The same bytes, seen as a value of another type. -/
def iso (layout : Layout α) (make : α → β) (inv : β → α) : Layout β where
  write value := layout.write (inv value)
  read bytes := do
    let (a, rest) ← layout.read bytes
    pure (make a, rest)
  width := layout.width
  guards := layout.guards

/-- Reads `count` values after one another. -/
def readMany (layout : Layout α) :
    (count : Nat) → Bytes →
      Except LayoutFault ({ values : List α // values.length = count } × Bytes)
  | 0, bytes => .ok (⟨[], rfl⟩, bytes)
  | count + 1, bytes => do
    let (value, rest) ← layout.read bytes
    let (values, rest) ← readMany layout count rest
    pure (⟨value :: values.1, by simp [values.2]⟩, rest)

/-- The guards of `count` values after one another. -/
def guardsMany (layout : Layout α) (count : Nat) : List (Nat × Nat) :=
  (List.range count).flatMap fun i => layout.guards.map fun g => (i * layout.width + g.1, g.2)

/-- `count` values after one another. -/
def repeated (layout : Layout α) (count : Nat) : Layout (Vector α count) where
  write values := values.toList.flatMap layout.write
  read bytes := do
    let (values, rest) ← readMany layout count bytes
    pure (⟨values.1.toArray, by simp [values.2]⟩, rest)
  width := count * layout.width
  guards := guardsMany layout count

/-- One value for each venue, in venue order. -/
def perVenue (layout : Layout α) : Layout (PerVenue α) :=
  (layout.pair (layout.pair layout)).iso
    (fun t => ⟨t.1, t.2.1, t.2.2⟩) (fun t => (t.solend, t.port, t.jet))

end Layout

end YieldVault
