-- The laws of layouts: a layout reads back what it wrote, whatever follows, and so
-- does a vault account.
import YieldVault.Account
import YieldVault.Proofs.Digests

namespace YieldVault

namespace Layout

variable {α β : Type}

/-- Reading gives back what was written, and leaves what follows it. -/
def Lawful (layout : Layout α) : Prop :=
  ∀ value rest, layout.read (layout.write value ++ rest) = .ok (value, rest)

/-! ## Single values -/

theorem word_lawful {width : Nat} {ofNat : Nat → α} {toNat : α → Nat}
    (hfits : ∀ a, toNat a < Bytes.capacity width) (hinv : ∀ a, ofNat (toNat a) = a) :
    (word width ofNat toNat).Lawful := by
  intro a rest
  have hlen : (Bytes.ofNat width (toNat a)).length = width := Bytes.length_ofNat _ _
  have hsplit : split width (Bytes.ofNat width (toNat a) ++ rest) =
      .ok (Bytes.ofNat width (toNat a), rest) := by
    rw [split, if_neg (by simp), List.take_left' hlen, List.drop_left' hlen]
  simp [word, hsplit, Bytes.toNat_ofNat _ _ (hfits a), hinv, bind, Except.bind, pure,
    Except.pure]

theorem uint8_lawful : uint8.Lawful := word_lawful UInt8.toNat_lt (by simp)

theorem uint16_lawful : uint16.Lawful := word_lawful UInt16.toNat_lt (by simp)

theorem uint32_lawful : uint32.Lawful := word_lawful UInt32.toNat_lt (by simp)

theorem uint64_lawful : uint64.Lawful := word_lawful UInt64.toNat_lt (by simp)

theorem key_lawful : key.Lawful := by
  intro k rest
  have hlong : ¬ k.bytes.length + rest.length < 32 := by
    rw [k.length_bytes]
    omega
  simp [key, hlong, List.take_left' k.length_bytes, List.drop_left' k.length_bytes]

theorem bool_lawful : bool.Lawful := by
  intro b rest
  cases b <;> simp [bool]

theorem choice_lawful [DecidableEq α] {cases : List α} (hall : ∀ a, a ∈ cases)
    (hfew : cases.length ≤ UInt8.size) : (choice cases).Lawful := by
  intro a rest
  have hlt : cases.findIdx (· = a) < cases.length := by
    rw [List.findIdx_lt_length]
    exact ⟨a, hall a, by simp⟩
  have hbyte : (UInt8.ofNat (cases.findIdx (· = a))).toNat = cases.findIdx (· = a) :=
    UInt8.toNat_ofNat_of_lt' (Nat.lt_of_lt_of_le hlt hfew)
  have hget : cases[cases.findIdx (· = a)]? = some a := by
    rw [List.getElem?_eq_getElem hlt]
    simpa using List.findIdx_getElem (w := hlt)
  simp only [choice, List.singleton_append, hbyte, hget]

/-! ## Values after one another -/

theorem pair_lawful {first : Layout α} {second : Layout β} (hfirst : first.Lawful)
    (hsecond : second.Lawful) : (first.pair second).Lawful := by
  rintro ⟨a, b⟩ rest
  simp [pair, hfirst a, hsecond b, bind, Except.bind, pure, Except.pure]

theorem iso_lawful {layout : Layout α} {make : α → β} {inv : β → α} (h : layout.Lawful)
    (hinv : ∀ b, make (inv b) = b) : (layout.iso make inv).Lawful := by
  intro b rest
  simp [iso, h (inv b), hinv, bind, Except.bind, pure, Except.pure]

theorem readMany_flatMap {layout : Layout α} (h : layout.Lawful) (values : List α) (rest : Bytes) :
    layout.readMany values.length (values.flatMap layout.write ++ rest) =
      .ok (⟨values, rfl⟩, rest) := by
  induction values with
  | nil => rfl
  | cons a as ih =>
    simp [readMany, h a, ih, bind, Except.bind, pure, Except.pure]

theorem repeated_lawful {layout : Layout α} (h : layout.Lawful) (count : Nat) :
    (layout.repeated count).Lawful := by
  rintro ⟨⟨values⟩, hcount⟩ rest
  simp only [List.size_toArray] at hcount
  subst hcount
  simp [repeated, readMany_flatMap h, bind, Except.bind, pure, Except.pure]

theorem perVenue_lawful {layout : Layout α} (h : layout.Lawful) : layout.perVenue.Lawful :=
  iso_lawful (pair_lawful h (pair_lawful h h)) fun _ => rfl

/-! ## The vault account -/

theorem lastUpdate_lawful : lastUpdate.Lawful :=
  iso_lawful (pair_lawful uint64_lawful (pair_lawful bool_lawful (repeated_lawful uint8_lawful 7)))
    fun _ => rfl

theorem allocation_lawful : allocation.Lawful :=
  iso_lawful (pair_lawful uint64_lawful lastUpdate_lawful) fun _ => rfl

theorem vaultConfig_lawful : vaultConfig.Lawful := by
  have hmode : (choice [RebalanceMode.calculator, .proofChecker]).Lawful :=
    choice_lawful (by intro a; cases a <;> simp) (by decide)
  have hstrategy : (choice [Strategy.maxYield, .equalAllocation]).Lawful :=
    choice_lawful (by intro a; cases a <;> simp) (by decide)
  refine iso_lawful (pair_lawful uint64_lawful ?_) fun _ => rfl
  refine pair_lawful uint32_lawful (pair_lawful uint32_lawful ?_)
  refine pair_lawful uint8_lawful (pair_lawful uint8_lawful ?_)
  exact pair_lawful hmode (pair_lawful hstrategy (repeated_lawful uint32_lawful 3))

theorem vaultAccount_lawful : vaultAccount.Lawful := by
  have hkeys : key.perVenue.Lawful := perVenue_lawful key_lawful
  have hallocations : allocation.perVenue.Lawful := perVenue_lawful allocation_lawful
  refine iso_lawful (pair_lawful (repeated_lawful uint8_lawful 3) ?_) fun _ => rfl
  refine pair_lawful key_lawful (pair_lawful key_lawful (pair_lawful key_lawful ?_))
  refine pair_lawful uint8_lawful (pair_lawful hkeys (pair_lawful key_lawful ?_))
  refine pair_lawful hkeys (pair_lawful key_lawful (pair_lawful key_lawful ?_))
  refine pair_lawful key_lawful (pair_lawful key_lawful ?_)
  refine pair_lawful uint16_lawful (pair_lawful uint16_lawful ?_)
  refine pair_lawful allocation_lawful (pair_lawful hallocations ?_)
  exact pair_lawful vaultConfig_lawful (pair_lawful hallocations (repeated_lawful uint32_lawful 28))

end Layout

namespace VaultAccount

@[simp] theorem length_tag : tag.length = 8 := length_nameTag _ _

/-- An account is read back from its data, also where more bytes follow. -/
theorem decode_encode (address : Key) (account : VaultAccount) (rest : Bytes) :
    decode address (account.encode ++ rest) = .ok account := by
  have htake : (account.encode ++ rest).take 8 = tag := by
    rw [encode, List.append_assoc]
    exact List.take_left' length_tag
  have hdrop : (account.encode ++ rest).drop 8 = Layout.vaultAccount.write account ++ rest := by
    rw [encode, List.append_assoc]
    exact List.drop_left' length_tag
  rw [decode, if_pos htake, hdrop, Layout.vaultAccount_lawful account rest]

end VaultAccount

end YieldVault
