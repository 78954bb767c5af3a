-- The shortest text of a binary real: the fewest decimal digits that read back
-- as it, nearest to it among those. They are found by exact arithmetic on its
-- significand and exponent.
namespace YieldVault.Shortest

/-- A positive real as a quotient of two whole numbers. -/
structure Quotient where
  numerator : Nat
  denominator : Nat

/-- The exact value of a positive finite real. -/
def quotientOf (x : Float) : Quotient :=
  let bits := x.toBits.toNat
  let exponent := bits / Nat.pow 2 52 % 2048
  let fraction := bits % Nat.pow 2 52
  let significand := if exponent = 0 then fraction else Nat.pow 2 52 + fraction
  let power := if exponent = 0 then 1 else exponent
  if 1075 ≤ power then ⟨significand * Nat.pow 2 (power - 1075), 1⟩
  else ⟨significand, Nat.pow 2 (1075 - power)⟩

/-- The quotient multiplied by a power of ten. -/
def Quotient.shift (v : Quotient) (places : Int) : Quotient :=
  if 0 ≤ places then { v with numerator := v.numerator * Nat.pow 10 places.toNat }
  else { v with denominator := v.denominator * Nat.pow 10 (-places).toNat }

/-- The number of zeros between the point and the first digit of a quotient below one. -/
def leadingZeros (v : Quotient) : (fuel : Nat) → Nat
  | 0 => 0
  | fuel + 1 =>
    if v.denominator ≤ v.numerator * 10 then 0
    else leadingZeros { v with numerator := v.numerator * 10 } fuel + 1

/-- How many digits stand before the point; of a number below a tenth, less than none. -/
def pointOf (v : Quotient) : Int :=
  if v.denominator ≤ v.numerator then (toString (v.numerator / v.denominator)).length
  else -(leadingZeros v 400)

/-- The real of a digit string before a power of ten. -/
def ofDigits (digits : Nat) (power : Int) : Float :=
  if 0 ≤ power then Float.ofScientific digits false power.toNat
  else Float.ofScientific digits true (-power).toNat

/-- The digit string of a given length that reads back, if there is one: of two, the nearer, and
of two that are as near, the even one. -/
def digitsOfLength? (x : Float) (v : Quotient) (point : Int) (length : Nat) : Option Nat :=
  let power := point - length
  let scaled := v.shift (-power)
  let below := scaled.numerator / scaled.denominator
  let reads (digits : Nat) : Bool := (ofDigits digits power).toBits == x.toBits
  let middle := (2 * below + 1) * scaled.denominator
  let isAbove := middle < 2 * scaled.numerator
    || (middle == 2 * scaled.numerator && below % 2 == 1)
  if isAbove && reads (below + 1) then some (below + 1)
  else if reads below then some below
  else if reads (below + 1) then some (below + 1)
  else none

/-- The digits of a positive finite real, without closing zeros, and the place of its point. -/
def digitsOf (x : Float) : List Char × Int :=
  let v := quotientOf x
  let point := pointOf v
  let found := (List.range 17).findSome? fun n =>
    (digitsOfLength? x v point (n + 1)).map fun digits => (digits, n + 1)
  let (digits, length) := found.getD (0, 1)
  let text := (toString digits).toList
  ((text.reverse.dropWhile (· = '0')).reverse, point + (text.length - length : Int))

/-- Where the layout of a real changes: points from `least` on up to `most` are written out. -/
structure Layout where
  least : Int
  most : Int

/-- Small and large reals are written with an exponent. -/
def layout : Layout := ⟨-4, 16⟩

def zeros (count : Int) : List Char := List.replicate count.toNat '0'

/-- The exponent of ten of a first digit, with its sign. -/
def exponentText (exponent : Int) : List Char :=
  'e' :: (if exponent < 0 then '-' else '+') :: (toString exponent.natAbs).toList

/-- Digits laid out around their point; there is always a digit after it, or an exponent. -/
def lay (layout : Layout) (digits : List Char) (point : Int) : List Char :=
  if layout.least ≤ point ∧ point ≤ layout.most then
    if point ≤ 0 then '0' :: '.' :: zeros (-point) ++ digits
    else if digits.length ≤ point then digits ++ zeros (point - digits.length) ++ ['.', '0']
    else digits.take point.toNat ++ '.' :: digits.drop point.toNat
  else
    let exponent := exponentText (point - 1)
    match digits with
    | [d] => d :: exponent
    | _ => digits.take 1 ++ '.' :: digits.drop 1 ++ exponent

/-- The text of a finite real. -/
def text (x : Float) : String :=
  let sign := if x.toBits.toNat < UInt64.size / 2 then [] else ['-']
  let x := x.abs
  if x == 0 then String.ofList (sign ++ ['0', '.', '0'])
  else
    let (digits, point) := digitsOf x
    String.ofList (sign ++ lay layout digits point)

end YieldVault.Shortest
