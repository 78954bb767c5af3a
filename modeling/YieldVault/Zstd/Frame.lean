-- Compressed frames and what they hold. A frame is a header, blocks, and perhaps a
-- checksum; frames may follow each other, and some frames are only passed over.
import YieldVault.Hash.XxHash
import YieldVault.Zstd.Literals
import YieldVault.Zstd.Sequences

namespace YieldVault.Zstd

/-! ## Blocks -/

/-- What a frame knows between its blocks: its bytes so far, and what a block may take over from the
one before. -/
structure Progress where
  bytes : Array UInt8
  code : Option PrefixCode
  tables : Option CodeTables
  recent : Recent

namespace Progress

/-- The start of a frame. -/
def start : Progress := ⟨#[], none, none, .start⟩

/-- Adds bytes from some distance before, which may overlap with those that are added. -/
def copy? (bytes : Array UInt8) (distance : Nat) : (length : Nat) → Option (Array UInt8)
  | 0 => some bytes
  | length + 1 =>
    if distance = 0 then none
    else if bytes.size < distance then none
    else
      match bytes[bytes.size - distance]? with
      | some b => copy? (bytes.push b) distance length
      | none => none

/-- Adds what sequences stand for, and at last the literals that they leave over. -/
def follow? (bytes : Array UInt8) (literals : Bytes) : List Sequence → Option (Array UInt8)
  | [] => some (literals.foldl Array.push bytes)
  | s :: rest =>
    let (taken, left) := literals.splitAt s.literals
    if taken.length < s.literals then none
    else
      match copy? (taken.foldl Array.push bytes) s.distance s.length with
      | some bytes => follow? bytes left rest
      | none => none

/-- Adds a compressed block. -/
def addCompressed? (p : Progress) (block : Bytes) : Option Progress := do
  let literals ← Literals.read? p.code block
  let (count, rest) ← Sequences.count? literals.rest
  if count = 0 then
    if rest.isEmpty then
      pure { p with bytes := literals.bytes.foldl Array.push p.bytes, code := literals.code }
    else none
  else
    let (tables, rest) ← Sequences.readTables? p.tables rest
    let (sequences, recent) ← Sequences.readAll? tables p.recent count rest
    let bytes ← follow? p.bytes literals.bytes sequences
    pure ⟨bytes, literals.code, some tables, recent⟩

/-- Adds a block of one of four kinds, and gives the bytes after it. The size is that of the block,
or how often its only byte stands. A compressed block without bytes stands for none, unless the
frame is decoded at once. -/
def addBlock? (p : Progress) (isAtOnce : Bool) (most kind size : Nat) (bytes : Bytes) :
    Option (Progress × Bytes) :=
  if most < size then none
  else
    match kind with
    | 0 =>
      if bytes.length < size then none
      else
        some ({ p with bytes := (bytes.take size).foldl Array.push p.bytes }, bytes.drop size)
    | 1 =>
      match bytes with
      | b :: rest => some ({ p with bytes := p.bytes ++ Array.replicate size b }, rest)
      | [] => none
    | 2 =>
      if bytes.length < size then none
      else if size = 0 && !isAtOnce then some (p, bytes)
      else do
        let next ← p.addCompressed? (bytes.take size)
        if most < next.bytes.size - p.bytes.size then none else pure (next, bytes.drop size)
    | _ => none

/-- What the blocks of a frame come to. -/
structure Blocks where
  content : Array UInt8
  /-- Whether the last block has no bytes. -/
  endsEmpty : Bool
  /-- The bytes after the last block. -/
  rest : Bytes

/-- Adds blocks up to the last one. -/
def addBlocks? (p : Progress) (isAtOnce : Bool) (most : Nat) : (fuel : Nat) → Bytes → Option Blocks
  | 0, _ => none
  | fuel + 1, a :: b :: c :: bytes =>
    let header := Bytes.toNat [a, b, c]
    let kind := header / 2 % 4
    let size := header / 8
    match p.addBlock? isAtOnce most kind size bytes with
    | none => none
    | some (p, bytes) =>
      if header % 2 = 1 then some ⟨p.bytes, size = 0 && kind != 1, bytes⟩
      else p.addBlocks? isAtOnce most fuel bytes
  | _ + 1, _ => none

end Progress

/-! ## Frames -/

/-- What a header says about its frame. -/
structure Header where
  window : Nat
  dictionary : Nat
  /-- How many bytes the frame holds, if the header says so. -/
  size : Option Nat
  hasChecksum : Bool
  deriving DecidableEq, Repr

/-- The widest window that is worked with, unless a frame is decoded at once. -/
def maxWindow : Nat := Nat.pow 2 27 + 1

/-- The most bytes of a frame that is decoded at once. Larger ones, and those that do not say how
much they hold, are decoded block by block. -/
def maxAtOnce : Nat := 32

namespace Header

/-- Takes a number of so many bytes. -/
def takeNumber? (width : Nat) (bytes : Bytes) : Option (Nat × Bytes) :=
  if bytes.length < width then none
  else some (Bytes.toNat (bytes.take width), bytes.drop width)

/-- The window of a byte: a power of two, and some eighths of it. Some are too wide for any use. -/
def windowOf? (b : Nat) : Option Nat :=
  let power := Nat.pow 2 (10 + b / 8)
  if 31 < 10 + b / 8 then none else some (power + power / 8 * (b % 8))

/-- The width of the number that says how much the frame holds. -/
def sizeWidth (form : Nat) (isSingle : Bool) : Nat :=
  match form with
  | 0 => if isSingle then 1 else 0
  | 1 => 2
  | 2 => 4
  | _ => 8

/-- Reads a header after its mark. A frame in a single piece has no window but itself. -/
def read? (bytes : Bytes) : Option (Header × Bytes) := do
  let (flags, bytes) ← takeNumber? 1 bytes
  let isSingle := flags / 32 % 2 = 1
  let form := flags / 64
  if flags / 8 % 2 = 1 then none
  else
    let (b, bytes) ← takeNumber? (if isSingle then 0 else 1) bytes
    let window ← windowOf? b
    let (dictionary, bytes) ← takeNumber? ([0, 1, 2, 4].getD (flags % 4) 0) bytes
    let width := sizeWidth form isSingle
    let (n, bytes) ← takeNumber? width bytes
    let size := if width = 2 then n + 256 else n
    pure (⟨if isSingle then size else window, dictionary,
      if width = 0 then none else some size, flags / 4 % 2 = 1⟩, bytes)

/-- Whether a frame is decoded at once. -/
def isAtOnce (header : Header) : Bool := header.size.any (· ≤ maxAtOnce)

/-- Whether a frame holds as much as its header says. Block by block, that is looked at only where
the last block has bytes; before that, there may be no more of them. -/
def agrees (header : Header) (blocks : Progress.Blocks) : Bool :=
  match header.size with
  | none => true
  | some size =>
    blocks.content.size == size
      || (!header.isAtOnce && blocks.endsEmpty && blocks.content.size < size)

end Header

/-- Whether bytes have the checksum that follows them. -/
def isChecked (content check : Bytes) : Bool :=
  check.length = 4 && (XxHash.checksum content).toNat % Nat.pow 2 32 = Bytes.toNat check

/-- What the frame after a mark holds, and the bytes after it. -/
def decodeFrame? (bytes : Bytes) : Option (Bytes × Bytes) := do
  let (header, bytes) ← Header.read? bytes
  if header.dictionary != 0 || (!header.isAtOnce && maxWindow < header.window) then none
  else
    let blocks ← Progress.start.addBlocks? header.isAtOnce
      (min header.window Literals.maxBlock) (bytes.length + 1) bytes
    let content := blocks.content.toList
    let rest := blocks.rest
    if !header.agrees blocks then none
    else if !header.hasChecksum then pure (content, rest)
    else if isChecked content (rest.take 4) then pure (content, rest.drop 4)
    else none

/-- The mark of a frame. -/
def frameMark : Nat := 0xFD2FB528

/-- The first of sixteen marks of frames that are passed over. -/
def passedMark : Nat := 0x184D2A50

/-- What all frames hold together. -/
def decodeFrames? : (fuel : Nat) → Bytes → Option Bytes
  | 0, _ => none
  | fuel + 1, bytes => do
    let (mark, rest) ← Header.takeNumber? 4 bytes
    let (content, rest) ←
      if mark = frameMark then decodeFrame? rest
      else if mark / 16 = passedMark / 16 then do
        let (width, rest) ← Header.takeNumber? 4 rest
        if rest.length < width then none else pure ([], rest.drop width)
      else none
    if rest.isEmpty then pure content else (content ++ ·) <$> decodeFrames? fuel rest

/-- What compressed bytes hold: at least one frame, and nothing else. -/
def decode? (bytes : Bytes) : Option Bytes := decodeFrames? bytes.length bytes

end YieldVault.Zstd
