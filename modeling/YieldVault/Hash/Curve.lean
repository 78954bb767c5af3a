-- The twisted Edwards curve with -x² + y² = 1 + d x² y² over the field of
-- 2^255 - 19 elements, as far as addresses need it: which 32 bytes are a point,
-- and which public half belongs to a secret seed.
import YieldVault.Hash.Sha2

namespace YieldVault.Curve

/-- The number of elements of the field. -/
def p : Nat := Nat.pow 2 255 - 19

/-- `base ^ exponent` modulo `m`, over the given number of exponent bits, highest first. -/
def powMod (base exponent m : Nat) : (bits : Nat) → (acc : Nat) → Nat
  | 0, acc => acc
  | bits + 1, acc =>
    let square := acc * acc % m
    powMod base exponent m bits
      (if exponent.testBit bits then square * base % m else square)

def power (base exponent : Nat) : Nat := powMod base exponent p 255 1

def inverse (x : Nat) : Nat := power x (p - 2)

/-- The constant of the curve, -121665 / 121666. -/
def d : Nat := (p - 121665) * inverse 121666 % p

/-- Whether 32 bytes name a point: the number below the sign bit is a `y` for which
`x² = (y² - 1) / (d y² + 1)` has a root. -/
def isPoint (bytes : Bytes) : Bool :=
  let y := Bytes.toNat bytes % Nat.pow 2 255 % p
  let square := y * y % p
  let numerator := (square + p - 1) % p
  let denominator := (d * square + 1) % p
  let product := numerator * denominator % p
  product == 0 || power product ((p - 1) / 2) == 1

/-! ## Public halves -/

/-- A point in projective form: `x = X / Z`, `y = Y / Z`. -/
structure Point where
  X : Nat
  Y : Nat
  Z : Nat

def Point.zero : Point := ⟨0, 1, 1⟩

def Point.add (a b : Point) : Point :=
  let zz := a.Z * b.Z % p
  let z4 := zz * zz % p
  let xx := a.X * b.X % p
  let yy := a.Y * b.Y % p
  let e := d * xx % p * yy % p
  let f := (z4 + p - e) % p
  let g := (z4 + e) % p
  let cross := (a.X + a.Y) * (b.X + b.Y) % p
  { X := zz * f % p * ((cross + 2 * p - xx - yy) % p) % p
    Y := zz * g % p * ((yy + xx) % p) % p
    Z := f * g % p }

/-- The point of the standard base: `y = 4 / 5`, with even `x`. -/
def base : Point :=
  let y := 4 * inverse 5 % p
  let square := y * y % p
  let x2 := (square + p - 1) % p * inverse ((d * square + 1) % p) % p
  let root := power x2 ((p + 3) / 8)
  let x := if root * root % p == x2 then root else root * power 2 ((p - 1) / 4) % p
  ⟨if x % 2 == 0 then x else p - x, y, 1⟩

/-- A point added to itself the given number of times, over the bits of the number. -/
def Point.times (point : Point) (n : Nat) : (bits : Nat) → (acc : Point) → Point
  | 0, acc => acc
  | bits + 1, acc =>
    let twice := acc.add acc
    point.times n bits (if n.testBit bits then twice.add point else twice)

/-- The 32 bytes of a point: `y` with the parity of `x` in the top bit. -/
def Point.bytes (point : Point) : Bytes :=
  let inv := inverse point.Z
  let x := point.X * inv % p
  let y := point.Y * inv % p
  Bytes.ofNat 32 (y + (x % 2) * Nat.pow 2 255)

/-- The public half of a 32-byte secret seed. -/
def publicHalf (seed : Bytes) : Bytes :=
  let digest := Bytes.toNat ((Sha2.sha512 seed).take 32)
  let scalar := digest % Nat.pow 2 254 / 8 * 8 + Nat.pow 2 254
  (base.times scalar 255 Point.zero).bytes

end YieldVault.Curve
