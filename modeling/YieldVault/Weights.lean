-- Proposed weights: basis points for some of the venues, none above the whole.
-- Whether weights suit a vault is for its program to say.
import YieldVault.Amount

namespace YieldVault

/-- Weights in basis points for some venues. -/
structure Weights where
  table : VenueMap UInt16
  le_whole : ∀ v b, table.get? v = some b → b.toNat ≤ wholeBps

namespace Weights

instance : DecidableEq Weights := fun a b =>
  match decEq a.table b.table with
  | .isTrue h => .isTrue (by cases a; cases b; simp_all)
  | .isFalse h => .isFalse (by rintro rfl; exact h rfl)

/-- No venue weighted. -/
def none : Weights where
  table := .empty
  le_whole := by simp

/-- The weights with one venue's weight set, unless it is above the whole. -/
def assign (weights : Weights) (venue : Venue) (bps : UInt16) : Except Error Weights :=
  if h : bps.toNat ≤ wholeBps then
    .ok {
      table := weights.table.insert venue bps
      le_whole := by
        intro v b hb
        rw [VenueMap.get?_insert] at hb
        split at hb
        · simp_all
        · exact weights.le_whole v b hb }
  else .error (.invalidInput (.overweight venue bps))

/-- The weights of a list of pairs. Every pair is checked, and of two for one venue the later
stands. -/
def ofList (pairs : List (Venue × UInt16)) : Except Error Weights :=
  pairs.foldlM (fun weights p => weights.assign p.1 p.2) none

/-- The weight of a venue, zero if it has none. -/
def bps (weights : Weights) (venue : Venue) : UInt16 := (weights.table.get? venue).getD 0

/-- The weighted venues with their weights, in venue order. -/
def toList (weights : Weights) : List (Venue × UInt16) := weights.table.toList

end Weights

end YieldVault
