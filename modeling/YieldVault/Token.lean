-- Token accounts and mints as the token program stores them, as far as a vault
-- reads them: the supply of a mint and the amount in a token account.
import YieldVault.Bytes

namespace YieldVault.Token

/-- Why bytes are not a usable mint or token account. -/
inductive Fault
  | invalid
  | uninitialized
  deriving DecidableEq, Repr

/-- The wording of a fault. -/
def Fault.message : Fault → String
  | .invalid => "An account's data contents was invalid"
  | .uninitialized => "An attempt to operate on an account that hasn't been initialized"

/-- Where the restricted parts of an account kind stand. -/
structure Shape where
  /-- The width of the plain account, without extensions. -/
  width : Nat
  /-- The offsets of the markers that say whether an optional field is there. -/
  markers : List Nat
  /-- The offset of the state byte. -/
  state : Nat
  /-- The number of states; state 0 is an account that was never set up. -/
  states : Nat
  /-- The offset of the number that is read. -/
  amount : Nat
  /-- The byte that names the kind where extensions follow. -/
  kind : UInt8

def mint : Shape := ⟨82, [0, 46], 45, 2, 36, 1⟩

def holding : Shape := ⟨165, [72, 109, 129], 108, 3, 64, 2⟩

/-- The width of a token account, which is also where the kind byte of extended data stands. -/
def accountWidth : Nat := 165

/-- The width of a third kind of account, which is told from the others by its length. -/
def multisigWidth : Nat := 355

/-- The byte at an offset; zero past the end. -/
def byteAt (data : Bytes) (offset : Nat) : UInt8 := data.getD offset 0

/-- The number of `width` bytes at an offset. -/
def numberAt (data : Bytes) (offset width : Nat) : Nat :=
  Bytes.toNat ((data.drop offset).take width)

/-- A marker is the number 0 or 1 in four bytes. -/
def markerFits (data : Bytes) (offset : Nat) : Bool := numberAt data offset 4 < 2

/-- What may follow the plain account: nothing, or zeros up to the kind byte, the kind,
and at least one byte more. -/
def tailFits (shape : Shape) (data : Bytes) : Bool :=
  data.length == shape.width
    || (accountWidth + 2 ≤ data.length
      && ((data.take accountWidth).drop shape.width).all (· == 0)
      && byteAt data accountWidth == shape.kind)

/-- The number an account of this shape holds. Its fields are looked at before its state,
and both before what follows them. -/
def read (shape : Shape) (data : Bytes) : Except Fault UInt64 :=
  if data.length < shape.width || data.length == multisigWidth then .error .invalid
  else if !shape.markers.all (markerFits data)
      || shape.states ≤ (byteAt data shape.state).toNat then .error .invalid
  else if byteAt data shape.state == 0 then .error .uninitialized
  else if !tailFits shape data then .error .invalid
  else .ok (UInt64.ofNat (numberAt data shape.amount 8))

/-! ## Plain accounts -/

/-- The data of a plain mint with some supply and nobody to change it. -/
def mintData (supply : UInt64) : Bytes :=
  List.replicate 36 0 ++ Bytes.ofNat 8 supply.toNat ++ [6, 1] ++ List.replicate 36 0

/-- The data of a plain token account, from the bytes of its mint and its owner. -/
def holdingData (mintKey owner : Bytes) (amount : UInt64) : Bytes :=
  mintKey ++ owner ++ Bytes.ofNat 8 amount.toNat ++ List.replicate 36 0 ++ [1]
    ++ List.replicate 56 0

/-! ## Numbers -/

/-- The supply of a mint. -/
def mintSupply (data : Bytes) : Except Fault UInt64 := read mint data

/-- The amount in a token account. -/
def heldAmount (data : Bytes) : Except Fault UInt64 := read holding data

end YieldVault.Token
