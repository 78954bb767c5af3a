-- Prefix codes of literal bytes. A code is told by the weight of each byte: the
-- heavier, the shorter its code, and a byte of weight zero has none.
import YieldVault.Zstd.StateTable

namespace YieldVault.Zstd

/-- A code word: the byte that it stands for, and how many bits it has. -/
structure CodeWord where
  symbol : UInt8
  width : Nat
  deriving DecidableEq, Repr

/-- A prefix code: for every number of `width` bits, the code word that these bits start with. -/
structure PrefixCode where
  width : Nat
  words : Array CodeWord
  deriving Repr

namespace PrefixCode

/-! ## Making a code -/

/-- How many numbers start with the code word of a weight. -/
def numbersOf (weight : Nat) : Nat := if weight = 0 then 0 else Nat.pow 2 (weight - 1)

def totalOf (weights : List Nat) : Nat := weights.foldl (fun n weight => n + numbersOf weight) 0

/-- The most bits of a code word. -/
def maxWidth : Nat := 12

/-- The code words of the bytes of a weight, each once for every number that starts with it. -/
def wordsOf (width : Nat) (weights : List Nat) (weight : Nat) : List CodeWord :=
  weights.zipIdx.flatMap fun (w, symbol) =>
    if w = weight then
      List.replicate (numbersOf weight) ⟨UInt8.ofNat symbol, width + 1 - weight⟩
    else []

/-- The code of all weights but the last, which is what is left. Light bytes come first; of the
lightest there is an even number, and more than none. -/
def ofWeights? (weights : List Nat) : Option PrefixCode :=
  let total := totalOf weights
  let width := total.log2 + 1
  let left := Nat.pow 2 width - total
  let weights := weights ++ [left.log2 + 1]
  let lightest := weights.count 1
  if total = 0 || maxWidth < width || 256 < weights.length || Nat.pow 2 left.log2 != left
      || lightest < 2 || lightest % 2 = 1 then
    none
  else
    some ⟨width,
      ((List.range width).flatMap fun i => wordsOf width weights (i + 1)).toArray⟩

/-! ## Reading a code -/

/-- The weights in the halves of bytes, the high half first. -/
def halves (bytes : Bytes) : List Nat :=
  bytes.flatMap fun b => [b.toNat / 16, b.toNat % 16]

/-- Reads symbols in two states by turns until the bits run out; the other state has then still a
symbol to tell. -/
def weightsOf? (table : StateTable) (soFar : List Nat) :
    (fuel : Nat) → (step other : Step) → Bits → Option (List Nat)
  | 0, _, _, _ => none
  | fuel + 1, step, other, bits =>
    let soFar := step.symbol :: soFar
    if bits.length < step.width then some (other.symbol :: soFar).reverse
    else
      match table.next? step bits with
      | some (next, bits) => weightsOf? table soFar fuel other next bits
      | none => none

/-- Reads weights that are written as states. -/
def readStates? (bytes : Bytes) : Option (List Nat) := do
  let (table, rest) ← StateTable.read? 256 6 bytes
  let bits ← Bits.backward? rest
  let (first, bits) ← table.start? bits
  let (second, bits) ← table.start? bits
  weightsOf? table [] 256 first second bits

/-- Reads a code, and gives the bytes after it. The first byte tells how many bytes of states or how
many weights follow. -/
def read? (bytes : Bytes) : Option (PrefixCode × Bytes) :=
  match bytes with
  | [] => none
  | b :: rest => do
    let count := b.toNat - 127
    let width := if b < 128 then b.toNat else (count + 1) / 2
    if rest.length < width then none
    else
      let weights ← if b < 128 then readStates? (rest.take width)
        else some ((halves (rest.take width)).take count)
      let code ← ofWeights? weights
      pure (code, rest.drop width)

/-! ## Decoding -/

/-- Reads bytes until no bits are left, after those read before, which are given last first. -/
def decodeAfter? (code : PrefixCode) (soFar : Bytes) : (count : Nat) → Bits → Option Bytes
  | 0, bits => if bits.isEmpty then some soFar.reverse else none
  | count + 1, bits =>
    match code.words[bits.peek code.width]? with
    | none => none
    | some word =>
      match bits.skip? word.width with
      | none => none
      | some bits => decodeAfter? code (word.symbol :: soFar) count bits

/-- Reads so many bytes from a stream that holds nothing else. -/
def decode? (code : PrefixCode) (count : Nat) (stream : Bytes) : Option Bytes := do
  let bits ← Bits.backward? stream
  decodeAfter? code [] count bits

end PrefixCode

end YieldVault.Zstd
