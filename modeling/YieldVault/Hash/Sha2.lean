-- The SHA-2 family: SHA-256 on 32-bit words and SHA-512 on 64-bit words, one
-- algorithm with two sets of sizes. The constants are the leading fraction bits
-- of the roots of the first primes, so they are computed, not listed.
import YieldVault.Bytes

namespace YieldVault.Sha2

/-! ## Constants -/

def isPrime (n : Nat) : Bool :=
  2 ≤ n && (List.range n).all fun d => d < 2 || n % d != 0

/-- The primes below 410, of which there are eighty. -/
def primes : List Nat := (List.range 410).filter isPrime

/-- The largest `r` below `2 ^ bits` with `r ^ k ≤ n`, found bit by bit from the highest. -/
def root (k n : Nat) : (bits : Nat) → (high : Nat) → Nat
  | 0, r => r
  | bits + 1, r =>
    let r' := r + Nat.pow 2 bits
    root k n bits (if Nat.pow r' k ≤ n then r' else r)

/-- The first `bits` bits after the point of the `k`-th root of `n`. -/
def rootFraction (k bits n : Nat) : Nat :=
  root k (n * Nat.pow 2 (k * bits)) (bits + 8) 0 % Nat.pow 2 bits

/-! ## The two members -/

/-- The sizes that tell the members of the family apart. -/
structure Variant where
  wordBits : Nat
  /-- One round constant per round. -/
  constants : List Nat
  /-- The eight words the hash starts from. -/
  start : List Nat
  /-- Two rotations and a shift, for the words fifteen and two places back in the schedule. -/
  near : Nat × Nat × Nat
  far : Nat × Nat × Nat
  /-- Three rotations, of the first and of the fifth working word. -/
  sum0 : Nat × Nat × Nat
  sum1 : Nat × Nat × Nat

def sha256Variant : Variant where
  wordBits := 32
  constants := (primes.take 64).map (rootFraction 3 32)
  start := (primes.take 8).map (rootFraction 2 32)
  near := (7, 18, 3)
  far := (17, 19, 10)
  sum0 := (2, 13, 22)
  sum1 := (6, 11, 25)

def sha512Variant : Variant where
  wordBits := 64
  constants := (primes.take 80).map (rootFraction 3 64)
  start := (primes.take 8).map (rootFraction 2 64)
  near := (1, 8, 7)
  far := (19, 61, 6)
  sum0 := (28, 34, 39)
  sum1 := (14, 18, 41)

/-! ## One block -/

/-- How many values a word has. -/
def Variant.wordSize (v : Variant) : Nat := Nat.pow 2 v.wordBits

/-- Rotation to the right within a word. -/
def Variant.rotate (v : Variant) (n x : Nat) : Nat :=
  (x >>> n) ||| ((x <<< (v.wordBits - n)) % v.wordSize)

def Variant.mix (v : Variant) (r : Nat × Nat × Nat) (x : Nat) : Nat :=
  v.rotate r.1 x ^^^ v.rotate r.2.1 x ^^^ (x >>> r.2.2)

def Variant.spin (v : Variant) (r : Nat × Nat × Nat) (x : Nat) : Nat :=
  v.rotate r.1 x ^^^ v.rotate r.2.1 x ^^^ v.rotate r.2.2 x

/-- The word that follows sixteen words of the schedule. -/
def Variant.nextWord (v : Variant) (window : List Nat) : Nat :=
  (v.mix v.far (window.getD 14 0) + window.getD 9 0 + v.mix v.near (window.getD 1 0)
    + window.getD 0 0) % v.wordSize

/-- The eight working words after one round. -/
def Variant.round (v : Variant) (words : List Nat) (constant word : Nat) : List Nat :=
  match words with
  | [a, b, c, d, e, f, g, h] =>
    let choice := (e &&& f) ^^^ ((v.wordSize - 1 - e) &&& g)
    let majority := (a &&& b) ^^^ (a &&& c) ^^^ (b &&& c)
    let t := h + v.spin v.sum1 e + choice + constant + word
    [(t + v.spin v.sum0 a + majority) % v.wordSize, a, b, c, (d + t) % v.wordSize, e, f, g]
  | _ => words

/-- Runs a round for each constant, sliding the schedule's window along. -/
def Variant.rounds (v : Variant) : List Nat → (words window : List Nat) → List Nat
  | [], words, _ => words
  | k :: rest, words, window =>
    v.rounds rest (v.round words k (window.getD 0 0)) (window.drop 1 ++ [v.nextWord window])

def Variant.block (v : Variant) (words block : List Nat) : List Nat :=
  List.zipWith (fun a b => (a + b) % v.wordSize) words (v.rounds v.constants words block)

/-! ## Messages -/

def Variant.wordBytes (v : Variant) : Nat := v.wordBits / 8

/-- The message, a closing bit, zeros, and its length in bits, filling whole blocks. -/
def Variant.pad (v : Variant) (message : Bytes) : Bytes :=
  let width := 16 * v.wordBytes
  let framed := message.length + 1 + 2 * v.wordBytes
  message ++ [0x80] ++ List.replicate ((width - framed % width) % width) 0
    ++ (Bytes.ofNat (2 * v.wordBytes) (8 * message.length)).reverse

/-- The words of a byte string, highest byte first. -/
def Variant.words (v : Variant) (count : Nat) (bytes : Bytes) : List Nat :=
  (List.range count).map fun i =>
    Bytes.toNat ((bytes.drop (i * v.wordBytes)).take v.wordBytes).reverse

/-- Folds `count` blocks of sixteen words into the working words. -/
def Variant.blocks (v : Variant) : (count : Nat) → (words : List Nat) → Bytes → List Nat
  | 0, words, _ => words
  | count + 1, words, bytes =>
    v.blocks count (v.block words (v.words 16 bytes)) (bytes.drop (16 * v.wordBytes))

def Variant.hash (v : Variant) (message : Bytes) : Bytes :=
  let padded := v.pad message
  let words := v.blocks (padded.length / (16 * v.wordBytes)) v.start padded
  words.flatMap fun w => (Bytes.ofNat v.wordBytes w).reverse

/-- The 32-byte digest of a message. -/
def sha256 (message : Bytes) : Bytes := sha256Variant.hash message

/-- The 64-byte digest of a message. -/
def sha512 (message : Bytes) : Bytes := sha512Variant.hash message

end YieldVault.Sha2
