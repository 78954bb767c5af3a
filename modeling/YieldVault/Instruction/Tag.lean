-- Tags: the eight bytes that tell one instruction, or one kind of account, of a
-- program from another. They are the start of the digest of a qualified name.
import YieldVault.Bytes
import YieldVault.Hash.Sha2

namespace YieldVault

/-- The first eight bytes of the digest of a name in a space of names. -/
def nameTag (space name : String) : Bytes :=
  (Sha2.sha256 (Bytes.ofText (space ++ ":" ++ name))).take 8

/-- The tag that opens the data of an instruction. -/
def instructionTag (name : String) : Bytes := nameTag "global" name

/-- The tag that opens the data of an account. -/
def accountTag (name : String) : Bytes := nameTag "account" name

end YieldVault
