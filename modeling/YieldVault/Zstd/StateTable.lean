-- Tables of states. A state stands for a symbol, and tells which states may come
-- next: those from a base on, one for each number of so many bits. A table is made
-- from the shares that symbols have in its states.
import YieldVault.Zstd.Bits

namespace YieldVault.Zstd

/-- A state: its symbol, and the states after it. -/
structure Step where
  symbol : Nat
  base : Nat
  width : Nat
  deriving DecidableEq, Repr

/-- A table whose states are numbered by so many bits. -/
structure StateTable where
  width : Nat
  steps : Array Step
  deriving Repr

namespace StateTable

/-! ## Making a table -/

/-- The symbols of shares, each as often as its share says. -/
def owners (shares : List Int) : List Nat :=
  shares.zipIdx.flatMap fun (share, symbol) => List.replicate share.toNat symbol

/-- The symbols whose share is less than one state. They have a state each all the same. -/
def rareSymbols (shares : List Int) : List Nat :=
  (shares.zipIdx.filter fun (share, _) => share < 0).map (·.2)

/-- The states below a limit in the order in which they are given out: with an odd stride around
the table. -/
def givingOrder (size limit : Nat) : List Nat :=
  ((List.range size).map fun i => i * (size / 2 + size / 8 + 3) % size).filter (· < limit)

/-- The symbol of each state. Rare symbols have the last states, the first of them the very last. -/
def symbolsOf (size : Nat) (shares : List Int) : Array Nat :=
  let rare := rareSymbols shares
  let given := (givingOrder size (size - rare.length)).zip (owners shares)
  let last := rare.zipIdx.map fun (symbol, i) => (size - 1 - i, symbol)
  (given ++ last).foldl (fun symbols (state, symbol) => symbols.setIfInBounds state symbol)
    (Array.replicate size 0)

/-- The next step of a symbol whose steps are counted from its share on: the lower its count, the
more bits follow. -/
def stepOf (width symbol count : Nat) : Step :=
  let bits := width - count.log2
  ⟨symbol, count * Nat.pow 2 bits - Nat.pow 2 width, bits⟩

/-- The steps of states with the given symbols, when the steps of each symbol are counted so far. -/
def stepsOf (width : Nat) : (counts : Array Nat) → List Nat → List Step
  | _, [] => []
  | counts, symbol :: symbols =>
    let count := counts.getD symbol 1
    stepOf width symbol count :: stepsOf width (counts.setIfInBounds symbol (count + 1)) symbols

/-- The table of shares, which sum up to the number of states. -/
def ofShares (width : Nat) (shares : List Int) : StateTable :=
  ⟨width, (stepsOf width (shares.map Int.natAbs).toArray
    (symbolsOf (Nat.pow 2 width) shares).toList).toArray⟩

/-- The table of a single state, which never changes. -/
def constant (symbol : Nat) : StateTable := ⟨0, #[⟨symbol, 0, 0⟩]⟩

/-! ## Reading shares -/

/-- Reads a share when some states are left. It is written as one more than it is, with one bit less
where that is enough. -/
def readShare? (left : Nat) (bits : Bits) : Option (Int × Bits) := do
  let width := (left + 1).log2
  let half := Nat.pow 2 width
  let threshold := 2 * half - 2 - left
  let (low, rest) ← bits.takeLow? width
  if low < threshold then pure ((low : Int) - 1, rest)
  else
    let (high, rest) ← rest.takeLow? 1
    pure (if high = 0 then (low : Int) - 1 else (low : Int) + half - threshold - 1, rest)

/-- Reads how many symbols have no share, in numbers below four, of which three is not the last. -/
def readGap? : (fuel : Nat) → Bits → Option (Nat × Bits)
  | 0, _ => none
  | fuel + 1, bits => do
    let (count, rest) ← bits.takeLow? 2
    if count < 3 then pure (count, rest)
    else
      let (more, rest) ← readGap? fuel rest
      pure (3 + more, rest)

/-- Reads the shares of at most `room` symbols until no state is left. A symbol without a share is
followed by the number of others next to it. -/
def readShares? (room left : Nat) (bits : Bits) : Option (List Int × Bits) :=
  if left = 0 then some ([], bits)
  else if _h : room = 0 then none
  else do
    let (share, bits) ← readShare? left bits
    if share = 0 then
      let (gap, bits) ← readGap? (bits.length + 1) bits
      let (shares, bits) ← readShares? (room - 1 - gap) left bits
      pure (List.replicate (gap + 1) 0 ++ shares, bits)
    else
      let (shares, bits) ← readShares? (room - 1) (left - share.natAbs) bits
      pure (share :: shares, bits)
termination_by room

/-- Reads a table of at most `room` symbols, whose states are numbered by at most `most` bits, and
gives the bytes after it. -/
def read? (room most : Nat) (bytes : Bytes) : Option (StateTable × Bytes) := do
  let bits := Bits.forward bytes
  let (extra, rest) ← bits.takeLow? 4
  let width := 5 + extra
  if most < width then none
  else
    let (shares, rest) ← readShares? room (Nat.pow 2 width) rest
    pure (ofShares width shares, bytes.drop ((bits.length - rest.length + 7) / 8))

/-! ## Walking through a table -/

/-- The state to start in. -/
def start? (table : StateTable) (bits : Bits) : Option (Step × Bits) := do
  let (state, bits) ← bits.take? table.width
  let step ← table.steps[state]?
  pure (step, bits)

/-- The state after another. -/
def next? (table : StateTable) (step : Step) (bits : Bits) : Option (Step × Bits) := do
  let (n, bits) ← bits.take? step.width
  let step ← table.steps[step.base + n]?
  pure (step, bits)

end StateTable

end YieldVault.Zstd
