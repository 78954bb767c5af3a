-- Base-64 text with padding. A text is read in groups of four symbols; the last
-- group may be filled up with `=`, and must be when it is short. Each way to
-- fail names the place.
import YieldVault.Bytes

namespace YieldVault.Base64

/-- The symbols in order of value. -/
def alphabet : Bytes :=
  Bytes.ofText "ABCDEFGHIJKLMNOPQRSTUVWXYZabcdefghijklmnopqrstuvwxyz0123456789+/"

/-- The sign that fills up the last group. -/
def pad : UInt8 := 61

/-- The value of a symbol, if the byte is one. -/
def value? (b : UInt8) : Option Nat := alphabet.findIdx? (· == b)

/-- Why a text is not base-64. -/
inductive Fault
  /-- The byte at this offset is not a symbol, or is padding where none may stand. -/
  | symbol (offset : Nat) (byte : UInt8)
  /-- The text ends after this many bytes, one symbol into a group. -/
  | length (bytes : Nat)
  /-- The last symbol carries bits that no byte takes. -/
  | lastSymbol (offset : Nat) (byte : UInt8)
  /-- The last group is not filled up. -/
  | padding
  deriving DecidableEq, Repr

/-- The wording of a fault. -/
def Fault.message : Fault → String
  | .symbol offset byte => s!"Invalid symbol {byte.toNat}, offset {offset}."
  | .length bytes => s!"Invalid input length: {bytes}"
  | .lastSymbol offset byte => s!"Invalid last symbol {byte.toNat}, offset {offset}."
  | .padding => "Invalid padding"

/-- The values of symbols that stand from `offset` on, or the first that is none. -/
def symbols (offset : Nat) : Bytes → Except Fault (List Nat)
  | [] => .ok []
  | b :: rest =>
    match value? b with
    | none => .error (.symbol offset b)
    | some v => (symbols (offset + 1) rest).map (v :: ·)

/-- What the last group may look like: its symbols with their number, and the number of pads. -/
structure Tail where
  values : List Nat
  last : UInt8
  pads : Nat
  firstPad : Nat

/-- Reads the last group byte by byte. Padding may only follow two symbols, and no symbol
may follow padding. -/
def scanTail (start : Nat) : (index : Nat) → Bytes → Tail → Except Fault Tail
  | _, [], tail => .ok tail
  | index, b :: rest, tail =>
    if b == pad then
      if index < 2 then .error (.symbol (start + index) b)
      else scanTail start (index + 1) rest
        { tail with
          pads := tail.pads + 1
          firstPad := if tail.pads = 0 then index else tail.firstPad }
    else if 0 < tail.pads then .error (.symbol (start + tail.firstPad) pad)
    else
      match value? b with
      | none => .error (.symbol (start + index) b)
      | some v =>
        scanTail start (index + 1) rest { tail with values := tail.values ++ [v], last := b }

/-- The number of a run of six-bit values, first the highest. -/
def pack (values : List Nat) : Nat := values.foldl (fun n v => 64 * n + v) 0

/-- The three bytes of each four values. -/
def bytesOf : List Nat → Bytes
  | a :: b :: c :: d :: rest => (Bytes.ofNat 3 (pack [a, b, c, d])).reverse ++ bytesOf rest
  | _ => []

/-- The bytes of the last group: of two symbols one byte, of three two, of four three. -/
def closeTail (start : Nat) (tail : Tail) : Except Fault Bytes :=
  let count := tail.values.length
  if count < 2 then .error (.length (start + count))
  else if (count + tail.pads) % 4 ≠ 0 then .error .padding
  else
    let whole := count * 6 / 8
    let spare := Nat.pow 2 (count * 6 - whole * 8)
    let number := pack tail.values
    if number % spare ≠ 0 then .error (.lastSymbol (start + count - 1) tail.last)
    else .ok (Bytes.ofNat whole (number / spare)).reverse

/-- Reads a text. A stray byte after the last whole group is reported before anything else. -/
def decode (text : Bytes) : Except Fault Bytes := do
  let rem := text.length % 4
  let stray : Option UInt8 :=
    if rem = 1 then
      text.getLast?.filter fun b => b != pad && (value? b).isNone
    else none
  match stray with
  | some b => .error (.symbol (text.length - 1) b)
  | none =>
    if text.isEmpty then .ok []
    else
      let start := text.length - (if rem = 0 then 4 else rem)
      let head ← symbols 0 (text.take start)
      let tail ← scanTail start 0 (text.drop start) ⟨[], 0, 0, 0⟩
      let last ← closeTail start tail
      .ok (bytesOf head ++ last)

end YieldVault.Base64
