-- The laws of digests: how long they are, and so how long the tags cut from them.
import YieldVault.Instruction.Tag

namespace YieldVault

namespace Sha2

variable (v : Variant)

theorem length_round (words : List Nat) (constant word : Nat) :
    (v.round words constant word).length = words.length := by
  unfold Variant.round
  split <;> rfl

theorem length_rounds (constants words window : List Nat) :
    (v.rounds constants words window).length = words.length := by
  induction constants generalizing words window with
  | nil => rfl
  | cons k rest ih => rw [Variant.rounds, ih, length_round]

theorem length_block (words block : List Nat) : (v.block words block).length = words.length := by
  simp [Variant.block, length_rounds]

theorem length_blocks (count : Nat) (words : List Nat) (bytes : Bytes) :
    (v.blocks count words bytes).length = words.length := by
  induction count generalizing words bytes with
  | zero => rfl
  | succ count ih => rw [Variant.blocks, ih, length_block]

theorem length_hash (message : Bytes) :
    (v.hash message).length = v.start.length * v.wordBytes := by
  simp [Variant.hash, List.length_flatMap, List.map_const', length_blocks]

theorem length_sha256 (message : Bytes) : (sha256 message).length = 32 := by
  have hstart : sha256Variant.start.length = 8 := by
    -- the first twenty numbers hold eight primes already
    have hprimes : 8 ≤ primes.length := by
      calc 8 = ((List.range 20).filter isPrime).length := by decide
        _ ≤ primes.length :=
          ((List.range_sublist.2 (by decide)).filter isPrime).length_le
    simp [sha256Variant, Nat.min_eq_left hprimes]
  rw [sha256, length_hash, hstart]
  rfl

end Sha2

@[simp] theorem length_nameTag (space name : String) : (nameTag space name).length = 8 := by
  simp [nameTag, Sha2.length_sha256]

end YieldVault
