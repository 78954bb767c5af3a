-- The sequences of a compressed block. Each of them takes some literals, and then
-- bytes that stand some distance before. Counts and distances are written as codes,
-- a code stands for a range of numbers, and codes are written as states.
import YieldVault.Zstd.StateTable

namespace YieldVault.Zstd

/-- How many literals to take, and how many bytes from how far before. -/
structure Sequence where
  literals : Nat
  distance : Nat
  length : Nat
  deriving DecidableEq, Repr

/-! ## Codes -/

/-- The range of numbers that a code stands for: those from a base on, one for each number of so
many bits. -/
structure CodeRange where
  base : Nat
  width : Nat
  deriving DecidableEq, Repr

namespace CodeRange

/-- The ranges of codes with so many bits, one after the other from a base on. -/
def ranges : (base : Nat) → (widths : List Nat) → List CodeRange
  | _, [] => []
  | base, width :: widths => ⟨base, width⟩ :: ranges (base + Nat.pow 2 width) widths

/-- The codes of counts of literals. -/
def ofLiterals : Array CodeRange :=
  (ranges 0 (List.replicate 16 0
    ++ [1, 1, 1, 1, 2, 2, 3, 3, 4, 6, 7, 8, 9, 10, 11, 12, 13, 14, 15, 16])).toArray

/-- The codes of counts of bytes from before. -/
def ofLengths : Array CodeRange :=
  (ranges 3 (List.replicate 32 0
    ++ [1, 1, 1, 1, 2, 2, 3, 3, 4, 4, 5, 7, 8, 9, 10, 11, 12, 13, 14, 15, 16])).toArray

/-- The codes of distances. -/
def ofDistances : Array CodeRange :=
  ((List.range 32).map fun code => ⟨Nat.pow 2 code, code⟩).toArray

/-- Reads a number of the range of a code. -/
def read? (ranges : Array CodeRange) (code : Nat) (bits : Bits) : Option (Nat × Bits) := do
  let range ← ranges[code]?
  let (n, bits) ← bits.take? range.width
  pure (range.base + n, bits)

end CodeRange

/-! ## Tables -/

/-- One of the three kinds of codes: the ranges, the most bits of a table, and the table that stands
for itself. -/
structure CodeKind where
  ranges : Array CodeRange
  most : Nat
  usual : StateTable

namespace CodeKind

def literals : CodeKind where
  ranges := CodeRange.ofLiterals
  most := 9
  usual := .ofShares 6
    ([4, 3] ++ List.replicate 11 2 ++ [1, 1, 1] ++ List.replicate 9 2 ++ [3, 2]
      ++ List.replicate 5 1 ++ List.replicate 4 (-1))

def distances : CodeKind where
  ranges := CodeRange.ofDistances
  most := 8
  usual := .ofShares 5
    (List.replicate 6 1 ++ [2, 2, 2] ++ List.replicate 15 1 ++ List.replicate 5 (-1))

def lengths : CodeKind where
  ranges := CodeRange.ofLengths
  most := 9
  usual := .ofShares 6
    ([1, 4, 3] ++ List.replicate 6 2 ++ List.replicate 37 1 ++ List.replicate 7 (-1))

/-- Reads the table of a block: the usual one, one of a single code, one of its own, or the one of
the block before. -/
def readTable? (kind : CodeKind) (mode : Nat) (before : Option StateTable) (bytes : Bytes) :
    Option (StateTable × Bytes) :=
  match mode with
  | 0 => some (kind.usual, bytes)
  | 1 =>
    match bytes with
    | code :: rest =>
      if code.toNat < kind.ranges.size then some (.constant code.toNat, rest) else none
    | [] => none
  | 2 => StateTable.read? kind.ranges.size kind.most bytes
  | _ => before.map (·, bytes)

end CodeKind

/-- The tables of the three kinds of codes. -/
structure CodeTables where
  literals : StateTable
  distances : StateTable
  lengths : StateTable

/-! ## Distances -/

/-- The last three distances, the last first. -/
structure Recent where
  first : Nat
  second : Nat
  third : Nat
  deriving DecidableEq, Repr

namespace Recent

/-- The distances that a frame starts with. -/
def start : Recent := ⟨1, 4, 8⟩

/-- The distance of a number. Up to three, it names a recent distance, or the next one after a
sequence without literals; a distance of its own is written as three more than it is. -/
def resolve (recent : Recent) (n literals : Nat) : Nat × Recent :=
  let choice := if literals = 0 then n + 1 else n
  if 3 < n then (n - 3, ⟨n - 3, recent.first, recent.second⟩)
  else
    match choice with
    | 1 => (recent.first, recent)
    | 2 => (recent.second, ⟨recent.second, recent.first, recent.third⟩)
    | 3 => (recent.third, ⟨recent.third, recent.first, recent.second⟩)
    | _ => (recent.first - 1, ⟨recent.first - 1, recent.first, recent.second⟩)

end Recent

/-! ## Reading -/

namespace Sequences

/-- How many sequences there are, and the bytes after that number. -/
def count? : Bytes → Option (Nat × Bytes)
  | [] => none
  | a :: rest =>
    if a < 128 then some (a.toNat, rest)
    else
      match rest with
      | [] => none
      | b :: rest =>
        if a < 255 then some ((a.toNat - 128) * 256 + b.toNat, rest)
        else
          match rest with
          | [] => none
          | c :: rest => some (b.toNat + 256 * c.toNat + 0x7F00, rest)

/-- The states of the three kinds of codes. -/
structure States where
  literals : Step
  distances : Step
  lengths : Step

/-- The states to start in. -/
def start? (tables : CodeTables) (bits : Bits) : Option (States × Bits) := do
  let (literals, bits) ← tables.literals.start? bits
  let (distances, bits) ← tables.distances.start? bits
  let (lengths, bits) ← tables.lengths.start? bits
  pure (⟨literals, distances, lengths⟩, bits)

/-- The states after some. -/
def next? (tables : CodeTables) (states : States) (bits : Bits) : Option (States × Bits) := do
  let (literals, bits) ← tables.literals.next? states.literals bits
  let (lengths, bits) ← tables.lengths.next? states.lengths bits
  let (distances, bits) ← tables.distances.next? states.distances bits
  pure (⟨literals, distances, lengths⟩, bits)

/-- Reads the sequence of some states. -/
def read? (recent : Recent) (states : States) (bits : Bits) :
    Option (Sequence × Recent × Bits) := do
  let (n, bits) ← CodeRange.read? CodeRange.ofDistances states.distances.symbol bits
  let (length, bits) ← CodeRange.read? CodeRange.ofLengths states.lengths.symbol bits
  let (literals, bits) ← CodeRange.read? CodeRange.ofLiterals states.literals.symbol bits
  let (distance, recent) := recent.resolve n literals
  pure (⟨literals, distance, length⟩, recent, bits)

/-- Reads sequences until no bits are left, after those read before, which are given last first. -/
def readAfter? (tables : CodeTables) (soFar : List Sequence) :
    (count : Nat) → Recent → States → Bits → Option (List Sequence × Recent)
  | 0, recent, _, bits => if bits.isEmpty then some (soFar.reverse, recent) else none
  | count + 1, recent, states, bits =>
    match read? recent states bits with
    | none => none
    | some (sequence, recent, bits) =>
      if count = 0 then readAfter? tables (sequence :: soFar) count recent states bits
      else
        match next? tables states bits with
        | none => none
        | some (states, bits) =>
          readAfter? tables (sequence :: soFar) count recent states bits

/-- Reads so many sequences from bytes that hold nothing else. -/
def readAll? (tables : CodeTables) (recent : Recent) (count : Nat) (bytes : Bytes) :
    Option (List Sequence × Recent) := do
  let bits ← Bits.backward? bytes
  let (states, bits) ← start? tables bits
  readAfter? tables [] count recent states bits

/-- Reads the tables of a block, whose modes stand in one byte before them. -/
def readTables? (before : Option CodeTables) : Bytes → Option (CodeTables × Bytes)
  | [] => none
  | modes :: bytes => do
    let modes := modes.toNat
    if modes % 4 != 0 then none
    else
      let (literals, bytes) ←
        CodeKind.literals.readTable? (modes / 64) (before.map (·.literals)) bytes
      let (distances, bytes) ←
        CodeKind.distances.readTable? (modes / 16 % 4) (before.map (·.distances)) bytes
      let (lengths, bytes) ←
        CodeKind.lengths.readTable? (modes / 4 % 4) (before.map (·.lengths)) bytes
      pure (⟨literals, distances, lengths⟩, bytes)

end Sequences

end YieldVault.Zstd
