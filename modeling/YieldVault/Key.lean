-- Keys: the 32-byte names of accounts and programs on the ledger, their base-58
-- text, and the pairs and signatures that go with them.
import YieldVault.Bytes.Base58
import YieldVault.Hash.Curve

namespace YieldVault

/-- A 32-byte name on the ledger. -/
structure Key where
  bytes : Bytes
  length_bytes : bytes.length = 32
  deriving DecidableEq

namespace Key

/-- The key with exactly these bytes, if there are 32 of them. -/
def ofBytes? (bytes : Bytes) : Option Key :=
  if h : bytes.length = 32 then some ⟨bytes, h⟩ else none

/-- The first 32 bytes, filled up with zeros on the right. -/
def fit (bytes : Bytes) : Key :=
  ⟨(bytes ++ List.replicate 32 0).take 32, by simp⟩

/-- The key that reads as this number, highest byte first. -/
def ofNat (n : Nat) : Key := ⟨(Bytes.ofNat 32 n).reverse, by simp⟩

/-- The base-58 text of a key. -/
def text (key : Key) : String := Base58.encode key.bytes

instance : ToString Key := ⟨text⟩

instance : Repr Key := ⟨fun key _ => key.text⟩

instance : Inhabited Key := ⟨ofNat 0⟩

/-! ## Reading a key -/

/-- Why a text is not a key. -/
inductive TextFault
  /-- Too long, or the text of more or fewer bytes. -/
  | wrongSize
  /-- A character that is no base-58 digit. -/
  | notBase58
  deriving DecidableEq, Repr

/-- The wording of a fault. -/
def TextFault.message : TextFault → String
  | .wrongSize => "String is the wrong size"
  | .notBase58 => "Invalid Base58 string"

/-- The longest text of a key, in bytes. -/
def maxTextBytes : Nat := 44

/-- Reads the text of a key. The length is looked at before the digits. -/
def ofText (text : String) : Except TextFault Key :=
  if maxTextBytes < text.utf8ByteSize then .error .wrongSize
  else
    match Base58.decode? text with
    | none => .error .notBase58
    | some bytes =>
      match ofBytes? bytes with
      | none => .error .wrongSize
      | some key => .ok key

/-! ## Keys that every vault knows -/

/-- The mint of the wrapped native asset, So11111111111111111111111111111111111111112. -/
def nativeMint : Key :=
  ofNat 0x069b8857feab8184fb687f634618c035dac439dc1aeb3b5598a0f00000000001

/-- The token program, TokenkegQfeZyiNwAJbNbGKPFXCWuBvf9Ss623VQ5DA. -/
def tokenProgram : Key :=
  ofNat 0x06ddf6e1d765a193d9cbe146ceeb79ac1cb485ed5f5b37913a8cf5857eff00a9

/-- The program of associated accounts, ATokenGPvbdGVxr1b2hvZbsiqW5xWH25efTNsLJA8knL. -/
def associatedProgram : Key :=
  ofNat 0x8c97258f4e2489f1bb3d1029148e0d830b5a1399daff1084048e7bd8dbe9f859

/-- The program that creates accounts, thirty-two ones in text. -/
def systemProgram : Key := ofNat 0

/-- The clock account, SysvarC1ock11111111111111111111111111111111. -/
def clock : Key :=
  ofNat 0x06a7d51718c774c928566398691d5eb68b5eb8a39b4b6d5c73555b2100000000

end Key

/-! ## Pairs and signatures -/

/-- A secret seed and the address that its signatures are checked against. -/
structure Keypair where
  seed : Key
  address : Key
  deriving DecidableEq

/-- The pair in 64 bytes, seed first, if the second half belongs to the first. -/
def Keypair.ofBytes? (bytes : Bytes) : Option Keypair := do
  let seed ← Key.ofBytes? (bytes.take 32)
  let address ← Key.ofBytes? (bytes.drop 32)
  if address.bytes = Curve.publicHalf seed.bytes then some ⟨seed, address⟩ else none

/-- What the ledger hands back for a transaction that it took. -/
structure Signature where
  bytes : Bytes
  deriving DecidableEq

/-- The base-58 text of a signature. -/
def Signature.text (signature : Signature) : String := Base58.encode signature.bytes

/-- The longest text of a signature, in bytes. -/
def Signature.maxTextBytes : Nat := 88

/-- Reads the text of a signature as that of a key is read. -/
def Signature.ofText (text : String) : Except Key.TextFault Signature :=
  if maxTextBytes < text.utf8ByteSize then .error .wrongSize
  else
    match Base58.decode? text with
    | none => .error .notBase58
    | some bytes => if bytes.length = 64 then .ok ⟨bytes⟩ else .error .wrongSize

/-! ## Associated accounts -/

/-- The bytes hashed for a program's address under a seed list and a bump. -/
def associatedPreimage (owner mint : Key) (bump : Nat) : Bytes :=
  owner.bytes ++ Key.tokenProgram.bytes ++ mint.bytes ++ [UInt8.ofNat bump]
    ++ Key.associatedProgram.bytes ++ Bytes.ofText "ProgramDerivedAddress"

/-- The first digest that is not a point of the curve, with bumps counted down. -/
def associatedFrom (owner mint : Key) : (bumps : Nat) → Key
  | 0 => default
  | bump + 1 =>
    let digest := Sha2.sha256 (associatedPreimage owner mint bump)
    if Curve.isPoint digest then associatedFrom owner mint bump else Key.fit digest

/-- The token account that belongs to an owner for a mint. -/
@[irreducible] def associatedAccount (owner mint : Key) : Key := associatedFrom owner mint 256

end YieldVault
