-- The other half of the laws of layouts: what a layout reads is what it would have
-- written, and it reads exactly the bytes that are long enough and that keep to its
-- guards. So the data of a vault account has one length, and says one account.
import YieldVault.Proofs.Layouts
import YieldVault.Proofs.Outcomes

namespace YieldVault

namespace Layout

variable {α β : Type}

/-! ## What a layout accepts -/

/-- Bytes that hold a value: there are enough of them, and each restricted byte stays below
its bound. -/
structure Fits (layout : Layout α) (bytes : Bytes) : Prop where
  long : layout.width ≤ bytes.length
  within : ∀ g ∈ layout.guards, ∀ b, bytes[g.1]? = some b → b.toNat < g.2

/-- A layout whose reader takes nothing but what its writer puts there. -/
structure Exact (layout : Layout α) : Prop where
  canonical : ∀ {bytes value rest},
    layout.read bytes = .ok (value, rest) → bytes = layout.write value ++ rest
  length_write : ∀ value, (layout.write value).length = layout.width
  fits : ∀ {bytes value rest}, layout.read bytes = .ok (value, rest) → layout.Fits bytes
  readable : ∀ {bytes}, layout.Fits bytes → ∃ value rest, layout.read bytes = .ok (value, rest)

variable {first : Layout α} {second : Layout β} {layout : Layout α}

-- Only the width and the guards count: layouts of different types may accept the same bytes.
theorem fits_congr (hwidth : first.width = second.width) (hguards : first.guards = second.guards)
    (bytes : Bytes) : first.Fits bytes ↔ second.Fits bytes := by
  constructor
  · rintro ⟨hlong, hwithin⟩
    exact ⟨hwidth ▸ hlong, hguards ▸ hwithin⟩
  · rintro ⟨hlong, hwithin⟩
    exact ⟨hwidth ▸ hlong, hguards ▸ hwithin⟩

theorem fits_of_width_le (hguards : layout.guards = []) {bytes : Bytes}
    (hlong : layout.width ≤ bytes.length) : layout.Fits bytes := by
  refine ⟨hlong, ?_⟩
  simp [hguards]

-- The shape of the layouts of one restricted byte.
theorem fits_cons_iff {bound : Nat} (hwidth : layout.width = 1)
    (hguards : layout.guards = [(0, bound)]) (b : UInt8) (rest : Bytes) :
    layout.Fits (b :: rest) ↔ b.toNat < bound := by
  constructor
  · intro h
    exact h.within (0, bound) (by simp [hguards]) b rfl
  · intro hb
    refine ⟨by simp [hwidth], ?_⟩
    simpa [hguards] using hb

theorem Fits.width_eq_zero (h : layout.Fits []) : layout.width = 0 := Nat.le_zero.mp h.long

/-! ## Single values -/

theorem word_exact {width : Nat} {ofNat : Nat → α} {toNat : α → Nat}
    (hinv : ∀ n, n < Bytes.capacity width → toNat (ofNat n) = n) :
    (word width ofNat toNat).Exact := by
  have hread : ∀ bytes : Bytes, width ≤ bytes.length →
      (word width ofNat toNat).read bytes =
        .ok (ofNat (Bytes.toNat (bytes.take width)), bytes.drop width) := by
    intro bytes hlong
    simp [word, split, Nat.not_lt.mpr hlong, bind, Except.bind, pure, Except.pure]
  have hlong : ∀ {bytes : Bytes} {value rest},
      (word width ofNat toNat).read bytes = .ok (value, rest) → width ≤ bytes.length := by
    intro bytes value rest h
    apply Nat.le_of_not_lt
    intro hshort
    simp [word, split, hshort, bind, Except.bind] at h
  constructor
  case canonical =>
    intro bytes value rest h
    have hw := hlong h
    rw [hread bytes hw] at h
    obtain ⟨rfl, rfl⟩ := Prod.mk.inj (Except.ok.inj h)
    have hlen : (bytes.take width).length = width := List.length_take_of_le hw
    have hlt : Bytes.toNat (bytes.take width) < Bytes.capacity width := by
      have hcap := Bytes.toNat_lt (bytes.take width)
      rwa [hlen] at hcap
    have hdigits := Bytes.ofNat_toNat (bytes.take width)
    rw [hlen] at hdigits
    simp only [word, hinv _ hlt, hdigits, List.take_append_drop]
  case length_write =>
    intro value
    exact Bytes.length_ofNat _ _
  case fits =>
    intro bytes value rest h
    exact fits_of_width_le rfl (hlong h)
  case readable =>
    intro bytes h
    exact ⟨_, _, hread bytes h.long⟩

theorem uint8_exact : uint8.Exact :=
  word_exact fun _ hn => UInt8.toNat_ofNat_of_lt' hn

theorem uint16_exact : uint16.Exact :=
  word_exact fun _ hn => UInt16.toNat_ofNat_of_lt' hn

theorem uint32_exact : uint32.Exact :=
  word_exact fun _ hn => UInt32.toNat_ofNat_of_lt' hn

theorem uint64_exact : uint64.Exact :=
  word_exact fun _ hn => UInt64.toNat_ofNat_of_lt' hn

theorem key_exact : key.Exact := by
  constructor
  case canonical =>
    intro bytes value rest h
    simp only [key] at h
    split at h
    · cases h
    · obtain ⟨rfl, rfl⟩ := Prod.mk.inj (Except.ok.inj h)
      exact (List.take_append_drop 32 bytes).symm
  case length_write =>
    intro value
    exact value.length_bytes
  case fits =>
    intro bytes value rest h
    simp only [key] at h
    split at h
    · cases h
    · exact fits_of_width_le rfl (Nat.le_of_not_lt ‹_›)
  case readable =>
    intro bytes h
    have hlong : ¬ bytes.length < 32 := Nat.not_lt.mpr h.long
    refine ⟨⟨bytes.take 32, List.length_take_of_le h.long⟩, bytes.drop 32, ?_⟩
    simp only [key, dif_neg hlong]

theorem bool_exact : bool.Exact := by
  constructor
  case canonical =>
    intro bytes value rest h
    rcases bytes with _ | ⟨b, bytes⟩
    · cases h
    · simp only [bool] at h ⊢
      split at h
      · obtain ⟨rfl, rfl⟩ := Prod.mk.inj (Except.ok.inj h)
        simp_all
      · split at h
        · obtain ⟨rfl, rfl⟩ := Prod.mk.inj (Except.ok.inj h)
          simp_all
        · cases h
  case length_write =>
    intro value
    rfl
  case fits =>
    intro bytes value rest h
    rcases bytes with _ | ⟨b, bytes⟩
    · cases h
    · rw [fits_cons_iff rfl rfl]
      simp only [bool] at h
      split at h
      · simp_all
      · split at h
        · simp_all
        · cases h
  case readable =>
    intro bytes h
    rcases bytes with _ | ⟨b, bytes⟩
    · cases h.width_eq_zero
    · rw [fits_cons_iff rfl rfl] at h
      by_cases hzero : b = 0
      · exact ⟨false, bytes, by simp [bool, hzero]⟩
      · have hone : b = 1 := by
          have hne : b.toNat ≠ 0 := fun h0 => hzero (UInt8.toNat_inj.mp h0)
          apply UInt8.toNat_inj.mp
          change b.toNat = 1
          omega
        exact ⟨true, bytes, by simp [bool, hone]⟩

theorem choice_exact [DecidableEq α] {cases : List α} (hnodup : cases.Nodup) :
    (choice cases).Exact := by
  constructor
  case canonical =>
    intro bytes value rest h
    rcases bytes with _ | ⟨b, bytes⟩
    · cases h
    · simp only [choice] at h
      split at h
      · rename_i found hfound
        obtain ⟨rfl, rfl⟩ := Prod.mk.inj (Except.ok.inj h)
        obtain ⟨hlt, rfl⟩ := List.getElem?_eq_some_iff.mp hfound
        have hplace : cases.findIdx (· = cases[b.toNat]) = b.toNat :=
          hnodup.idxOf_getElem b.toNat hlt
        simp [choice, hplace]
      · cases h
  case length_write =>
    intro value
    rfl
  case fits =>
    intro bytes value rest h
    rcases bytes with _ | ⟨b, bytes⟩
    · cases h
    · rw [fits_cons_iff rfl rfl]
      simp only [choice] at h
      split at h
      · exact (List.getElem?_eq_some_iff.mp ‹_›).1
      · cases h
  case readable =>
    intro bytes h
    rcases bytes with _ | ⟨b, bytes⟩
    · cases h.width_eq_zero
    · rw [fits_cons_iff rfl rfl] at h
      exact ⟨cases[b.toNat], bytes, by simp [choice, List.getElem?_eq_getElem h]⟩

/-! ## Values after one another -/

theorem pair_fits_iff (bytes : Bytes) :
    (first.pair second).Fits bytes ↔
      first.Fits bytes ∧ second.Fits (bytes.drop first.width) := by
  constructor
  · rintro ⟨hlong, hwithin⟩
    simp only [pair] at hlong hwithin
    refine ⟨⟨by omega, fun g hg => hwithin g (by simp [hg])⟩, ⟨by simp; omega, ?_⟩⟩
    intro g hg b hb
    rw [List.getElem?_drop] at hb
    exact hwithin (first.width + g.1, g.2)
      (List.mem_append_right _ (List.mem_map_of_mem hg)) b hb
  · rintro ⟨⟨hlong, hwithin⟩, ⟨hlong', hwithin'⟩⟩
    rw [List.length_drop] at hlong'
    refine ⟨by simp only [pair]; omega, ?_⟩
    intro g hg b hb
    rcases List.mem_append.mp hg with hg | hg
    · exact hwithin g hg b hb
    · obtain ⟨g', hg', rfl⟩ := List.mem_map.mp hg
      exact hwithin' g' hg' b (by rwa [List.getElem?_drop])

theorem pair_read_ok_iff {bytes rest : Bytes} {value : α × β} :
    (first.pair second).read bytes = .ok (value, rest) ↔
      ∃ mid, first.read bytes = .ok (value.1, mid) ∧ second.read mid = .ok (value.2, rest) := by
  constructor
  · intro h
    obtain ⟨⟨a, mid⟩, ha, h⟩ := Except.bind_eq_ok_iff.mp h
    obtain ⟨⟨b, rest'⟩, hb, h⟩ := Except.bind_eq_ok_iff.mp h
    obtain ⟨rfl, rfl⟩ := Prod.mk.inj (Except.ok.inj h)
    exact ⟨mid, ha, hb⟩
  · rintro ⟨mid, ha, hb⟩
    simp [pair, ha, hb, bind, Except.bind, pure, Except.pure]

-- What the first layout leaves is what follows its width.
theorem Exact.rest_eq_drop (h : layout.Exact) {bytes rest : Bytes} {value : α}
    (hread : layout.read bytes = .ok (value, rest)) : rest = bytes.drop layout.width := by
  rw [h.canonical hread, List.drop_left' (h.length_write value)]

theorem pair_exact (hfirst : first.Exact) (hsecond : second.Exact) :
    (first.pair second).Exact := by
  constructor
  case canonical =>
    intro bytes value rest h
    obtain ⟨mid, ha, hb⟩ := pair_read_ok_iff.mp h
    rw [hfirst.canonical ha, hsecond.canonical hb, ← List.append_assoc]
    rfl
  case length_write =>
    intro value
    simp [pair, hfirst.length_write, hsecond.length_write]
  case fits =>
    intro bytes value rest h
    obtain ⟨mid, ha, hb⟩ := pair_read_ok_iff.mp h
    rw [pair_fits_iff, ← hfirst.rest_eq_drop ha]
    exact ⟨hfirst.fits ha, hsecond.fits hb⟩
  case readable =>
    intro bytes h
    obtain ⟨hf, hs⟩ := (pair_fits_iff bytes).mp h
    obtain ⟨a, mid, ha⟩ := hfirst.readable hf
    rw [← hfirst.rest_eq_drop ha] at hs
    obtain ⟨b, rest, hb⟩ := hsecond.readable hs
    exact ⟨(a, b), rest, pair_read_ok_iff.mpr ⟨mid, ha, hb⟩⟩

theorem iso_read_ok_iff {make : α → β} {inv : β → α} {bytes rest : Bytes} {value : β} :
    (layout.iso make inv).read bytes = .ok (value, rest) ↔
      ∃ a, layout.read bytes = .ok (a, rest) ∧ make a = value := by
  constructor
  · intro h
    obtain ⟨⟨a, rest'⟩, ha, h⟩ := Except.bind_eq_ok_iff.mp h
    obtain ⟨rfl, rfl⟩ := Prod.mk.inj (Except.ok.inj h)
    exact ⟨a, ha, rfl⟩
  · rintro ⟨a, ha, rfl⟩
    simp [iso, ha, bind, Except.bind, pure, Except.pure]

theorem iso_exact {make : α → β} {inv : β → α} (h : layout.Exact)
    (hinv : ∀ a, inv (make a) = a) : (layout.iso make inv).Exact := by
  have hsame : ∀ bytes, (layout.iso make inv).Fits bytes ↔ layout.Fits bytes :=
    fits_congr rfl rfl
  constructor
  case canonical =>
    intro bytes value rest hread
    obtain ⟨a, ha, rfl⟩ := iso_read_ok_iff.mp hread
    simp only [iso, hinv]
    exact h.canonical ha
  case length_write =>
    intro value
    exact h.length_write (inv value)
  case fits =>
    intro bytes value rest hread
    obtain ⟨a, ha, rfl⟩ := iso_read_ok_iff.mp hread
    exact (hsame bytes).mpr (h.fits ha)
  case readable =>
    intro bytes hfits
    obtain ⟨a, rest, ha⟩ := h.readable ((hsame bytes).mp hfits)
    exact ⟨make a, rest, iso_read_ok_iff.mpr ⟨a, ha, rfl⟩⟩

theorem guardsMany_succ (layout : Layout α) (count : Nat) :
    layout.guardsMany (count + 1) =
      layout.guards ++ (layout.guardsMany count).map fun g => (layout.width + g.1, g.2) := by
  have hshift : ∀ i n : Nat, (i + 1) * layout.width + n = layout.width + (i * layout.width + n) := by
    intro i n
    rw [Nat.succ_mul]
    omega
  simp [guardsMany, List.range_succ_eq_map, List.flatMap_map, List.map_flatMap,
    Function.comp_def, hshift]

-- A run of values accepts the bytes of one value before a shorter run.
theorem repeated_succ_fits_iff (count : Nat) (bytes : Bytes) :
    (layout.repeated (count + 1)).Fits bytes ↔
      layout.Fits bytes ∧ (layout.repeated count).Fits (bytes.drop layout.width) := by
  rw [← pair_fits_iff]
  apply fits_congr
  · simp only [repeated, pair, Nat.succ_mul]
    omega
  · exact guardsMany_succ layout count

theorem readMany_ok (h : layout.Exact) {count : Nat} {bytes rest : Bytes}
    {values : { values : List α // values.length = count }}
    (hread : layout.readMany count bytes = .ok (values, rest)) :
    bytes = values.1.flatMap layout.write ++ rest ∧ (layout.repeated count).Fits bytes := by
  induction count generalizing bytes rest with
  | zero =>
    obtain ⟨rfl, rfl⟩ := Prod.mk.inj (Except.ok.inj hread)
    exact ⟨rfl, by simp [repeated], by simp [repeated, guardsMany]⟩
  | succ count ih =>
    obtain ⟨⟨a, mid⟩, ha, hread⟩ := Except.bind_eq_ok_iff.mp hread
    obtain ⟨⟨as, rest'⟩, has, hread⟩ := Except.bind_eq_ok_iff.mp hread
    obtain ⟨rfl, rfl⟩ := Prod.mk.inj (Except.ok.inj hread)
    obtain ⟨hmid, hfits⟩ := ih has
    constructor
    · rw [h.canonical ha, hmid]
      simp
    · rw [repeated_succ_fits_iff, ← h.rest_eq_drop ha]
      exact ⟨h.fits ha, hfits⟩

theorem readMany_of_fits (h : layout.Exact) {count : Nat} {bytes : Bytes}
    (hfits : (layout.repeated count).Fits bytes) :
    ∃ values rest, layout.readMany count bytes = .ok (values, rest) := by
  induction count generalizing bytes with
  | zero => exact ⟨_, _, rfl⟩
  | succ count ih =>
    obtain ⟨hone, hmany⟩ := (repeated_succ_fits_iff count bytes).mp hfits
    obtain ⟨a, mid, ha⟩ := h.readable hone
    rw [← h.rest_eq_drop ha] at hmany
    obtain ⟨as, rest, has⟩ := ih hmany
    exact ⟨⟨a :: as.1, by simp [as.2]⟩, rest,
      by simp [readMany, ha, has, bind, Except.bind, pure, Except.pure]⟩

theorem repeated_exact (h : layout.Exact) (count : Nat) : (layout.repeated count).Exact := by
  constructor
  case canonical =>
    intro bytes value rest hread
    obtain ⟨⟨values, rest'⟩, hmany, hread⟩ := Except.bind_eq_ok_iff.mp hread
    obtain ⟨rfl, rfl⟩ := Prod.mk.inj (Except.ok.inj hread)
    exact (readMany_ok h hmany).1
  case length_write =>
    intro value
    simp [repeated, List.length_flatMap, h.length_write, List.map_const']
  case fits =>
    intro bytes value rest hread
    obtain ⟨⟨values, rest'⟩, hmany, hread⟩ := Except.bind_eq_ok_iff.mp hread
    exact (readMany_ok h hmany).2
  case readable =>
    intro bytes hfits
    obtain ⟨values, rest, hmany⟩ := readMany_of_fits h hfits
    exact ⟨⟨values.1.toArray, by simp [values.2]⟩, rest,
      by simp [repeated, hmany, bind, Except.bind, pure, Except.pure]⟩

theorem perVenue_exact (h : layout.Exact) : layout.perVenue.Exact :=
  iso_exact (pair_exact h (pair_exact h h)) fun _ => rfl

/-! ## The vault account -/

theorem lastUpdate_exact : lastUpdate.Exact :=
  iso_exact (pair_exact uint64_exact (pair_exact bool_exact (repeated_exact uint8_exact 7)))
    fun _ => rfl

theorem allocation_exact : allocation.Exact :=
  iso_exact (pair_exact uint64_exact lastUpdate_exact) fun _ => rfl

theorem vaultConfig_exact : vaultConfig.Exact := by
  have hmode : (choice [RebalanceMode.calculator, .proofChecker]).Exact :=
    choice_exact (by decide)
  have hstrategy : (choice [Strategy.maxYield, .equalAllocation]).Exact :=
    choice_exact (by decide)
  refine iso_exact (pair_exact uint64_exact ?_) fun _ => rfl
  refine pair_exact uint32_exact (pair_exact uint32_exact ?_)
  refine pair_exact uint8_exact (pair_exact uint8_exact ?_)
  exact pair_exact hmode (pair_exact hstrategy (repeated_exact uint32_exact 3))

theorem vaultAccount_exact : vaultAccount.Exact := by
  have hkeys : key.perVenue.Exact := perVenue_exact key_exact
  have hallocations : allocation.perVenue.Exact := perVenue_exact allocation_exact
  refine iso_exact (pair_exact (repeated_exact uint8_exact 3) ?_) fun _ => rfl
  refine pair_exact key_exact (pair_exact key_exact (pair_exact key_exact ?_))
  refine pair_exact uint8_exact (pair_exact hkeys (pair_exact key_exact ?_))
  refine pair_exact hkeys (pair_exact key_exact (pair_exact key_exact ?_))
  refine pair_exact key_exact (pair_exact key_exact ?_)
  refine pair_exact uint16_exact (pair_exact uint16_exact ?_)
  refine pair_exact allocation_exact (pair_exact hallocations ?_)
  exact pair_exact vaultConfig_exact (pair_exact hallocations (repeated_exact uint32_exact 28))

theorem width_vaultAccount : vaultAccount.width = 768 := rfl

end Layout

namespace VaultAccount

/-- The length of an account's data. -/
def dataLength : Nat := 776

/-- The places in an account's data that hold 0 or 1: whether the total, a target value or an
actual value is stale, and between those the choices of a mode and of a strategy. -/
def switchPlaces : List Nat := [480, 504, 528, 552, 578, 579, 608, 632, 656]

/-- Data of no vault account. -/
inductive Malformed (data : Bytes) : Prop
  | short (h : data.length < dataLength)
  | foreign (h : data.take 8 ≠ tag)
  | noSwitch (place : Nat) (byte : UInt8) (hplace : place ∈ switchPlaces)
      (hbyte : data[place]? = some byte) (h : byte ≠ 0 ∧ byte ≠ 1)

-- Behind the opening tag the layout has no other guards than these.
theorem guards_vaultAccount :
    Layout.vaultAccount.guards.map (fun g => (8 + g.1, g.2)) = switchPlaces.map fun p => (p, 2) :=
  rfl

theorem lt_two_iff (byte : UInt8) : byte.toNat < 2 ↔ byte = 0 ∨ byte = 1 := by
  rw [← UInt8.toNat_inj, ← UInt8.toNat_inj]
  change byte.toNat < 2 ↔ byte.toNat = 0 ∨ byte.toNat = 1
  omega

theorem fits_iff (data : Bytes) :
    Layout.vaultAccount.Fits (data.drop 8) ↔ dataLength ≤ data.length ∧
      ∀ p ∈ switchPlaces, ∀ b, data[p]? = some b → b = 0 ∨ b = 1 := by
  have hguard : ∀ n bound, (n, bound) ∈ Layout.vaultAccount.guards ↔
      (8 + n, bound) ∈ switchPlaces.map fun p => (p, 2) := by
    intro n bound
    rw [← guards_vaultAccount, List.mem_map]
    constructor
    · intro hmem
      exact ⟨_, hmem, rfl⟩
    · rintro ⟨⟨n', bound'⟩, hmem, heq⟩
      obtain ⟨hn, rfl⟩ := Prod.mk.inj heq
      rwa [← Nat.add_left_cancel hn]
  constructor
  · rintro ⟨hlong, hwithin⟩
    rw [List.length_drop, Layout.width_vaultAccount] at hlong
    refine ⟨by unfold dataLength; omega, ?_⟩
    intro p hp b hb
    have hplace : 8 + (p - 8) = p := (by decide : ∀ p ∈ switchPlaces, 8 + (p - 8) = p) p hp
    rw [← lt_two_iff]
    apply hwithin (p - 8, 2) ((hguard _ _).mpr (List.mem_map.mpr ⟨p, hp, by rw [hplace]⟩))
    rwa [List.getElem?_drop, hplace]
  · rintro ⟨hlong, hswitch⟩
    unfold dataLength at hlong
    refine ⟨by rw [List.length_drop, Layout.width_vaultAccount]; omega, ?_⟩
    rintro ⟨n, bound⟩ hg b hb
    obtain ⟨p, hp, heq⟩ := List.mem_map.mp ((hguard n bound).mp hg)
    obtain ⟨rfl, rfl⟩ := Prod.mk.inj heq
    rw [List.getElem?_drop] at hb
    exact (lt_two_iff b).mpr (hswitch _ hp b hb)

theorem malformed_iff (data : Bytes) :
    Malformed data ↔ ¬ (data.take 8 = tag ∧ Layout.vaultAccount.Fits (data.drop 8)) := by
  rw [fits_iff]
  constructor
  · rintro (hshort | hforeign | ⟨p, b, hp, hb, hne⟩) ⟨htag, hlong, hswitch⟩
    · omega
    · exact hforeign htag
    · rcases hswitch p hp b hb with h | h
      · exact hne.1 h
      · exact hne.2 h
  · intro h
    by_cases hshort : data.length < dataLength
    · exact .short hshort
    · by_cases htag : data.take 8 = tag
      · have hsome : ∃ p ∈ switchPlaces, ∃ b, data[p]? = some b ∧ ¬ (b = 0 ∨ b = 1) := by
          simpa [htag, Nat.le_of_not_lt hshort] using h
        obtain ⟨p, hp, b, hb, hne⟩ := hsome
        exact .noSwitch p b hp hb (not_or.mp hne)
      · exact .foreign htag

/-! ## Reading an account -/

variable (address : Key)

theorem decode_eq_ok_iff (data : Bytes) (account : VaultAccount) :
    decode address data = .ok account ↔ account.encode <+: data := by
  constructor
  · intro h
    unfold decode at h
    split at h
    · split at h
      · rename_i htag _ _ rest hread
        cases h
        have hbody := Layout.vaultAccount_exact.canonical hread
        refine ⟨rest, ?_⟩
        rw [encode, List.append_assoc, ← hbody, ← htag, List.take_append_drop]
      · cases h
    · cases h
  · rintro ⟨rest, rfl⟩
    exact decode_encode address account rest

theorem exists_decode_eq_ok_iff (data : Bytes) :
    (∃ account, decode address data = .ok account) ↔
      data.take 8 = tag ∧ Layout.vaultAccount.Fits (data.drop 8) := by
  unfold decode
  constructor
  · rintro ⟨account, h⟩
    split at h
    · split at h
      · exact ⟨‹_›, Layout.vaultAccount_exact.fits ‹_›⟩
      · cases h
    · cases h
  · rintro ⟨htag, hfits⟩
    obtain ⟨account, rest, hread⟩ := Layout.vaultAccount_exact.readable hfits
    exact ⟨account, by rw [if_pos htag, hread]⟩

-- A reading that fails says which account it was of.
theorem accountDecode_of_error {data : Bytes} {e : Error} (h : decode address data = .error e) :
    ∃ fault, e = .accountDecode address fault := by
  unfold decode at h
  split at h
  · split at h
    · cases h
    · exact ⟨_, (Except.error.inj h).symm⟩
  · exact ⟨_, (Except.error.inj h).symm⟩

theorem decode_eq_error_iff (data : Bytes) :
    (∃ fault, decode address data = .error (.accountDecode address fault)) ↔ Malformed data := by
  rw [malformed_iff, ← exists_decode_eq_ok_iff address]
  constructor
  · rintro ⟨fault, herror⟩ ⟨account, hok⟩
    rw [herror] at hok
    cases hok
  · intro hnot
    rcases h : decode address data with e | account
    · obtain ⟨fault, rfl⟩ := accountDecode_of_error address h
      exact ⟨fault, rfl⟩
    · exact absurd ⟨account, h⟩ hnot

theorem length_encode (account : VaultAccount) : account.encode.length = dataLength := by
  rw [encode, List.length_append, length_tag, Layout.vaultAccount_exact.length_write]
  rfl

/-- A vault account is read back from its data, whatever follows them; and what an account is read
from starts with the data of that account. Two accounts never have the same data, and all have data
of one length. Data that are cut short hold no account; which others hold none is told by their tag,
their length and the bytes that stand for a choice. A refusal always names the address. -/
theorem a_vault_account_and_its_data_say_the_same :
    (∀ account rest, decode address (encode account ++ rest) = .ok account) ∧
    (∀ data account, decode address data = .ok account → account.encode <+: data) ∧
    Function.Injective encode ∧
    (∀ account, (encode account).length = dataLength) ∧
    (∀ (account : VaultAccount) data, data <+: account.encode → data ≠ account.encode →
      ∃ fault, decode address data = .error (.accountDecode address fault)) ∧
    (∀ data, (∃ fault, decode address data = .error (.accountDecode address fault)) ↔
      Malformed data) ∧
    ∀ data e, decode address data = .error e → ∃ fault, e = .accountDecode address fault := by
  refine ⟨decode_encode address, fun data account => (decode_eq_ok_iff address data account).mp,
    ?_, length_encode, ?_, decode_eq_error_iff address, fun _ _ => accountDecode_of_error address⟩
  · intro account other hsame
    have hread := (decode_eq_ok_iff address other.encode account).mpr (hsame ▸ List.prefix_rfl)
    have hother := (decode_eq_ok_iff address other.encode other).mpr List.prefix_rfl
    exact Except.ok.inj (hread.symm.trans hother)
  · intro account data hpart hne
    have hlt : data.length < account.encode.length :=
      Nat.lt_of_le_of_ne hpart.length_le fun hlen => hne (hpart.eq_of_length hlen)
    rw [length_encode] at hlt
    exact (decode_eq_error_iff address data).mpr (.short hlt)

end VaultAccount

end YieldVault
