-- Bits in the order in which they are read. Some parts of a compressed block are
-- read from their first byte on, others from their last byte back.
import YieldVault.Bytes

namespace YieldVault.Zstd

abbrev Bits := List Bool

namespace Bits

/-- The bits of a byte, the lowest first. -/
def ofByte (b : UInt8) : Bits := (List.range 8).map b.toNat.testBit

/-- The bits of bytes that are read from the first one on. -/
def forward (bytes : Bytes) : Bits := bytes.flatMap ofByte

/-- The bits of bytes that are read from the last one back. The first of them that is set only marks
where the others start, and has to be in the last byte. -/
def backward? (bytes : Bytes) : Option Bits :=
  match bytes.getLast? with
  | none => none
  | some last =>
    if last = 0 then none
    else some (((forward bytes).reverse.dropWhile (!·)).drop 1)

/-- Takes a number whose lowest bit comes first. -/
def takeLow? : (width : Nat) → Bits → Option (Nat × Bits)
  | 0, bits => some (0, bits)
  | _ + 1, [] => none
  | width + 1, bit :: bits =>
    (takeLow? width bits).map fun (n, rest) => (bit.toNat + 2 * n, rest)

/-- Takes a number whose highest bit comes first, after the bits that `n` is made of. -/
def takeAfter? (n : Nat) : (width : Nat) → Bits → Option (Nat × Bits)
  | 0, bits => some (n, bits)
  | _ + 1, [] => none
  | width + 1, bit :: bits => takeAfter? (2 * n + bit.toNat) width bits

/-- Takes a number whose highest bit comes first. -/
def take? (width : Nat) (bits : Bits) : Option (Nat × Bits) := takeAfter? 0 width bits

/-- The number of the next bits, after the bits that `n` is made of. Zeros stand in for missing
bits. -/
def peekAfter (n : Nat) : (width : Nat) → Bits → Nat
  | 0, _ => n
  | width + 1, [] => peekAfter (2 * n) width []
  | width + 1, bit :: bits => peekAfter (2 * n + bit.toNat) width bits

/-- The number of the next bits, whose highest comes first. -/
def peek (width : Nat) (bits : Bits) : Nat := peekAfter 0 width bits

/-- Leaves out some bits, of which there have to be enough. -/
def skip? : (width : Nat) → Bits → Option Bits
  | 0, bits => some bits
  | _ + 1, [] => none
  | width + 1, _ :: bits => skip? width bits

end Bits

end YieldVault.Zstd
