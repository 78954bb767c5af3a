-- The 64-bit checksum of the XXH family: four lanes over stripes of 32 bytes, and
-- then the rest of the bytes one word, half a word or a byte at a time.
import YieldVault.Bytes

namespace YieldVault.XxHash

def prime1 : UInt64 := 0x9E3779B185EBCA87
def prime2 : UInt64 := 0xC2B2AE3D27D4EB4F
def prime3 : UInt64 := 0x165667B19E3779F9
def prime4 : UInt64 := 0x85EBCA77C2B2AE63
def prime5 : UInt64 := 0x27D4EB2F165667C5

/-- Rotation to the left. -/
def rotate (x n : UInt64) : UInt64 := (x <<< n) ||| (x >>> (64 - n))

/-- The number in the first bytes, lowest first. -/
def wordOf (width : Nat) (bytes : Bytes) : UInt64 := UInt64.ofNat (Bytes.toNat (bytes.take width))

/-- A lane after one more word. -/
def round (lane word : UInt64) : UInt64 := rotate (lane + word * prime2) 31 * prime1

/-- The four lanes. -/
structure Lanes where
  a : UInt64
  b : UInt64
  c : UInt64
  d : UInt64

def Lanes.start : Lanes := ⟨prime1 + prime2, prime2, 0, 0 - prime1⟩

/-- The lanes after so many stripes, and the bytes after them. -/
def stripes : (count : Nat) → Lanes → Bytes → Lanes × Bytes
  | 0, lanes, bytes => (lanes, bytes)
  | count + 1, ⟨a, b, c, d⟩, bytes =>
    stripes count ⟨round a (wordOf 8 bytes), round b (wordOf 8 (bytes.drop 8)),
      round c (wordOf 8 (bytes.drop 16)), round d (wordOf 8 (bytes.drop 24))⟩ (bytes.drop 32)

def mergeLane (hash lane : UInt64) : UInt64 := (hash ^^^ round 0 lane) * prime1 + prime4

/-- The lanes as one word. -/
def Lanes.merge (lanes : Lanes) : UInt64 :=
  [lanes.a, lanes.b, lanes.c, lanes.d].foldl mergeLane
    (rotate lanes.a 1 + rotate lanes.b 7 + rotate lanes.c 12 + rotate lanes.d 18)

/-- Takes in whole words. -/
def takeWords : (count : Nat) → UInt64 → Bytes → UInt64 × Bytes
  | 0, hash, bytes => (hash, bytes)
  | count + 1, hash, bytes =>
    takeWords count (rotate (hash ^^^ round 0 (wordOf 8 bytes)) 27 * prime1 + prime4)
      (bytes.drop 8)

/-- Takes in half a word, if there is one. -/
def takeHalf (hash : UInt64) (bytes : Bytes) : UInt64 × Bytes :=
  if bytes.length < 4 then (hash, bytes)
  else (rotate (hash ^^^ wordOf 4 bytes * prime1) 23 * prime2 + prime3, bytes.drop 4)

def takeByte (hash : UInt64) (b : UInt8) : UInt64 :=
  rotate (hash ^^^ b.toUInt64 * prime5) 11 * prime1

/-- Spreads every bit over the word. -/
def spread (hash : UInt64) : UInt64 :=
  let hash := (hash ^^^ (hash >>> 33)) * prime2
  let hash := (hash ^^^ (hash >>> 29)) * prime3
  hash ^^^ (hash >>> 32)

/-- The checksum of bytes, with the seed zero. -/
def checksum (bytes : Bytes) : UInt64 :=
  let length := bytes.length
  let (lanes, rest) := stripes (length / 32) .start bytes
  let hash := if length < 32 then prime5 else lanes.merge
  let (hash, rest) := takeWords (rest.length / 8) (hash + UInt64.ofNat length) rest
  let (hash, rest) := takeHalf hash rest
  spread (rest.foldl takeByte hash)

end YieldVault.XxHash
