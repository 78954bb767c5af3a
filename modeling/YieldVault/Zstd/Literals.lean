-- The literals of a compressed block: bytes that it does not take from before.
-- They are written as they are, as one byte many times, or in a prefix code.
import YieldVault.Zstd.PrefixCode

namespace YieldVault.Zstd

/-- Literals, with the code that the next block may take over and the bytes after them. -/
structure Literals where
  bytes : Bytes
  code : Option PrefixCode
  rest : Bytes

namespace Literals

/-- The sizes at the start of encoded literals: the literals, the encoding, and the sizes
themselves. The first two are numbers of so many bits each. -/
structure Sizes where
  decoded : Nat
  encoded : Nat
  header : Nat
  deriving DecidableEq, Repr

/-- The most bytes of a block. -/
def maxBlock : Nat := 128 * 1024

/-- The size of literals that are written plainly, and the width of the header. -/
def plainSizes (form : Nat) (bytes : Bytes) : Nat × Nat :=
  match form with
  | 1 => (Bytes.toNat (bytes.take 2) / 16, 2)
  | 3 => (Bytes.toNat (bytes.take 3) / 16, 3)
  | _ => (Bytes.toNat (bytes.take 1) / 8, 1)

/-- The sizes of literals in a prefix code. -/
def codedSizes (form : Nat) (bytes : Bytes) : Sizes :=
  let (header, width) := match form with
    | 2 => (4, 14)
    | 3 => (5, 18)
    | _ => (3, 10)
  let n := Bytes.toNat (bytes.take header) / 16
  ⟨n % Nat.pow 2 width, n / Nat.pow 2 width % Nat.pow 2 width, header⟩

/-- Decodes literals that are written in four streams: the first three have a quarter each, rounded
up, and their sizes stand before them. -/
def decodeFour? (code : PrefixCode) (size : Nat) (bytes : Bytes) : Option Bytes := do
  let quarter := (size + 3) / 4
  let streams := bytes.drop 6
  let first := Bytes.toNat (bytes.take 2)
  let second := Bytes.toNat ((bytes.drop 2).take 2)
  let third := Bytes.toNat ((bytes.drop 4).take 2)
  if size < 6 || bytes.length < 10 || size < 3 * quarter
      || streams.length < first + second + third then
    none
  else
    let a ← code.decode? quarter (streams.take first)
    let b ← code.decode? quarter ((streams.drop first).take second)
    let c ← code.decode? quarter ((streams.drop (first + second)).take third)
    let d ← code.decode? (size - 3 * quarter) (streams.drop (first + second + third))
    pure (a ++ b ++ c ++ d)

/-- Decodes literals in one or four streams. -/
def decode? (code : PrefixCode) (isFour : Bool) (size : Nat) (bytes : Bytes) : Option Bytes :=
  if isFour then decodeFour? code size bytes else code.decode? size bytes

/-- Reads literals at the start of a block. The code before may be taken over. -/
def read? (before : Option PrefixCode) (bytes : Bytes) : Option Literals := do
  let b ← bytes.head?
  let kind := b.toNat % 4
  let form := b.toNat / 4 % 4
  if kind < 2 then
    let (size, header) := plainSizes form bytes
    let body := bytes.drop header
    let width := if kind = 0 then size else 1
    if maxBlock < size || bytes.length < header + width then none
    else
      let literals := if kind = 0 then body.take size
        else List.replicate size (body.headD 0)
      pure ⟨literals, before, body.drop width⟩
  else
    let sizes := codedSizes form bytes
    let encoded := (bytes.drop sizes.header).take sizes.encoded
    if maxBlock < sizes.decoded || bytes.length < 5
        || bytes.length < sizes.header + sizes.encoded then
      none
    else
      let (code, streams) ← if kind = 2 then PrefixCode.read? encoded
        else before.map fun code => (code, encoded)
      let literals ← decode? code (form != 0) sizes.decoded streams
      pure ⟨literals, some code, bytes.drop (sizes.header + sizes.encoded)⟩

end Literals

end YieldVault.Zstd
