-- The law of freeing: the reconciles ahead of a withdrawal that the reserve does
-- not cover take out of the venues at least what is missing, and never more than
-- stands there.
import YieldVault.Client.Transfer
import YieldVault.Proofs.Amounts
import YieldVault.Proofs.Movements

namespace YieldVault

/-! ## Scaled targets -/

namespace Projection

/-- The target of a venue, scaled down to what is left once an amount has left the vault. -/
def scaled (p : Projection) (amount : UInt64) (v : Venue) : Nat :=
  (p.target.value v).toNat * (p.total.toNat - amount.toNat) / p.total.toNat

theorem scaled_le (p : Projection) (amount : UInt64) (v : Venue) :
    p.scaled amount v ≤ (p.target.value v).toNat :=
  quotient_le_left (Nat.sub_le _ _)

theorem scaled_lt (p : Projection) (amount : UInt64) (v : Venue) :
    p.scaled amount v < UInt64.size :=
  Nat.lt_of_le_of_lt (p.scaled_le amount v) (p.target.value v).toNat_lt

/-- The projection once an amount has left the vault. -/
def without (p : Projection) (amount : UInt64) : Projection where
  target.denomination := p.target.denomination
  target.values := PerVenue.ofFn fun v =>
    (p.target.values.get? v).map fun _ => UInt64.ofNat (p.scaled amount v)
  actual := p.actual
  total := p.total - amount

theorem toNat_value_without (p : Projection) (amount : UInt64) (v : Venue) :
    ((p.without amount).target.value v).toNat = p.scaled amount v := by
  simp only [without, AllocationSet.value, VenueMap.get?_ofFn]
  cases hv : p.target.values.get? v with
  | none => simp [scaled, AllocationSet.value, hv]
  | some a => simp [UInt64.toNat_ofNat_of_lt' (p.scaled_lt amount v)]

/-- A vault that holds as much as is taken out goes on without it, unless there is a target to
scale down from nothing. -/
theorem afterWithdrawal_eq_without {p : Projection} {amount : UInt64} (hle : amount ≤ p.total)
    (hscalable : ∀ v a, p.target.values.get? v = some a → p.total ≠ 0) :
    p.afterWithdrawal amount = .ok (p.without amount) := by
  have hsub : (p.total - amount).toNat = p.total.toNat - amount.toNat :=
    UInt64.toNat_sub_of_le _ _ hle
  have hscale : ∀ v a, p.target.values.get? v = some a →
      mulDiv a (p.total - amount) p.total .floor = .ok (UInt64.ofNat (p.scaled amount v)) := by
    intro v a ha
    rw [mulDiv_eq_ok]
    refine ⟨hscalable v a ha, ?_⟩
    rw [UInt64.toNat_ofNat_of_lt' (p.scaled_lt amount v)]
    simp [scaled, Rounding.quotient, hsub, AllocationSet.value, ha]
  simp [afterWithdrawal, hle, AllocationSet.rescale, VenueMap.mapM_eq_ok _ hscale, Except.map,
    without]

theorem afterWithdrawal_eq_ok {p : Projection} {amount : UInt64} (hpos : 0 < p.total)
    (hle : amount ≤ p.total) :
    ∃ rest, p.afterWithdrawal amount = .ok rest ∧ rest.actual = p.actual ∧
      rest.target.denomination = p.target.denomination ∧
      ∀ v, (rest.target.value v).toNat = p.scaled amount v := by
  have hzero : p.total ≠ 0 := by
    rintro h
    simp [h] at hpos
  exact ⟨p.without amount, afterWithdrawal_eq_without hle fun _ _ _ => hzero, rfl, rfl,
    p.toNat_value_without amount⟩

/-- Scaled targets come to no more than what is left of the vault. -/
theorem sum_scaled_le {p : Projection} {amount : UInt64} (htarget : p.target.sum ≤ p.total.toNat) :
    (Venue.all.map (p.scaled amount)).sum ≤ p.total.toNat - amount.toNat := by
  calc (Venue.all.map (p.scaled amount)).sum
      ≤ p.target.sum * (p.total.toNat - amount.toNat) / p.total.toNat := sum_quotients_le _ _ _ _
    _ ≤ p.total.toNat - amount.toNat := Nat.div_le_of_le_mul (Nat.mul_le_mul_right _ htarget)

end Projection

/-! ## What steps take out -/

namespace ReconcileStep

/-- What steps take out of a venue. -/
def freedAt (steps : List ReconcileStep) (v : Venue) : Nat :=
  ((steps.filter (·.venue = v)).map (·.option.toNat)).sum

/-- What steps take out of all venues. -/
def freed (steps : List ReconcileStep) : Nat := (steps.map (·.option.toNat)).sum

theorem freedAt_cons (s : ReconcileStep) (steps : List ReconcileStep) (v : Venue) :
    freedAt (s :: steps) v = (if s.venue = v then s.option.toNat else 0) + freedAt steps v := by
  by_cases h : s.venue = v
  · simp [freedAt, h]
  · simp [freedAt, h]

theorem freed_eq_sum (steps : List ReconcileStep) :
    freed steps = (Venue.all.map (freedAt steps)).sum := by
  induction steps with
  | nil => simp [freed, freedAt, Venue.all]
  | cons s steps ih =>
    have hfreed : freed (s :: steps) = s.option.toNat + freed steps := by simp [freed]
    rw [hfreed, ih]
    cases hv : s.venue <;> simp [Venue.all, freedAt_cons, hv] <;> omega

theorem freedAt_of_not_mem {steps : List ReconcileStep} {v : Venue}
    (h : ∀ s ∈ steps, s.venue ≠ v) : freedAt steps v = 0 := by
  have hnone : steps.filter (·.venue = v) = [] := by simpa [List.filter_eq_nil_iff] using h
  simp [freedAt, hnone]

theorem freedAt_of_mem {steps : List ReconcileStep} (hnodup : (steps.map (·.venue)).Nodup)
    {s : ReconcileStep} (hs : s ∈ steps) : freedAt steps s.venue = s.option.toNat := by
  induction steps with
  | nil => cases hs
  | cons t steps ih =>
    obtain ⟨hfresh, hrest⟩ := List.nodup_cons.1 hnodup
    rw [freedAt_cons]
    rcases List.mem_cons.1 hs with rfl | hs
    · have hzero : freedAt steps s.venue = 0 := freedAt_of_not_mem fun x hx hxv =>
        hfresh (List.mem_map.2 ⟨x, hx, hxv⟩)
      simp [hzero]
    · have hne : t.venue ≠ s.venue := fun he => hfresh (List.mem_map.2 ⟨s, hs, he.symm⟩)
      simp [hne, ih hrest hs]

end ReconcileStep

/-! ## The steps of a withdrawal -/

theorem Movement.explicit_eq_ok {m : Movement} (h : m.delta.natAbs < UInt64.size) :
    ReconcileStep.explicit m = .ok ⟨m.venue, UInt64.ofNat m.delta.natAbs⟩ := by
  simp [ReconcileStep.explicit, Movement.amount, amount?_of_lt h, Except.map]

theorem explicit_mapM {ms : List Movement} (h : ∀ m ∈ ms, m.delta.natAbs < UInt64.size) :
    ms.mapM ReconcileStep.explicit =
      .ok (ms.map fun m => ⟨m.venue, UInt64.ofNat m.delta.natAbs⟩) := by
  induction ms with
  | nil => rfl
  | cons m ms ih =>
    have hm := Movement.explicit_eq_ok (h m List.mem_cons_self)
    have hms := ih fun x hx => h x (List.mem_cons_of_mem m hx)
    rw [List.mapM_cons, hm, hms]
    rfl

namespace Client

/-- The steps of the withdrawals among movements: one for each, of exactly its amount. -/
theorem withdrawalSteps_eq_ok {ms : List Movement} (hnodup : (ms.map (·.venue)).Nodup)
    (hword : ∀ m ∈ ms, m.delta.natAbs < UInt64.size) :
    ∃ steps, withdrawalSteps ms = .ok steps ∧ (steps.map (·.venue)).Nodup ∧
      ∀ s, s ∈ steps ↔ ∃ m ∈ ms, m.delta < 0 ∧ m.venue = s.venue ∧
        m.delta.natAbs = s.option.toNat := by
  have hdir : ∀ m : Movement, m.direction = .withdraw ↔ m.delta < 0 := by
    intro m
    unfold Movement.direction
    split <;> simp_all
  refine ⟨_, explicit_mapM fun m hm => hword m (List.mem_of_mem_filter hm), ?_, ?_⟩
  · rw [List.map_map]
    exact hnodup.sublist (List.filter_sublist.map _)
  · intro s
    simp only [List.mem_map, List.mem_filter, hdir, decide_eq_true_eq]
    constructor
    · rintro ⟨m, ⟨hm, hneg⟩, rfl⟩
      exact ⟨m, hm, hneg, rfl, by rw [UInt64.toNat_ofNat_of_lt' (hword m hm)]⟩
    · rintro ⟨m, hm, hneg, hv, hd⟩
      refine ⟨m, ⟨hm, hneg⟩, ?_⟩
      rw [hd, hv, UInt64.ofNat_toNat]

/-- What the steps that free the reserve are: one at each venue that holds more than its scaled
target, of exactly the excess. -/
theorem freeingSteps_eq_ok {p : Projection} {amount : UInt64}
    (hden : p.target.denomination = p.actual.denomination) (hpos : 0 < p.total)
    (hle : amount ≤ p.total) :
    ∃ steps, freeingSteps p amount = .ok steps ∧ (steps.map (·.venue)).Nodup ∧
      ∀ s, s ∈ steps ↔ 0 < s.option.toNat ∧
        p.scaled amount s.venue + s.option.toNat = (p.actual.value s.venue).toNat := by
  obtain ⟨rest, hrest, hactual, hdenrest, hscaled⟩ := Projection.afterWithdrawal_eq_ok hpos hle
  have hsame : rest.target.denomination = rest.actual.denomination := by
    rw [hdenrest, hden, hactual]
  have hmoves := AllocationSet.movements_eq_ok_iff.2 ⟨hsame, rfl⟩
  generalize hms : (Venue.all.filterMap fun v =>
    Movement.of? v (rest.target.delta rest.actual v)) = ms at hmoves
  have hdelta : ∀ v, rest.target.delta rest.actual v =
      p.scaled amount v - (p.actual.value v).toNat := by
    intro v
    rw [AllocationSet.delta, hscaled, hactual]
  have hmem : ∀ m, m ∈ Movement.inOrder ms ↔
      m.delta = p.scaled amount m.venue - (p.actual.value m.venue).toNat := by
    intro m
    rw [(Movement.inOrder_perm ms).mem_iff, AllocationSet.mem_movements hmoves, hdelta]
  have hnodup : ((Movement.inOrder ms).map (·.venue)).Nodup :=
    ((Movement.inOrder_perm ms).map _).nodup_iff.2 (AllocationSet.nodup_venues hmoves)
  have hword : ∀ m ∈ Movement.inOrder ms, m.delta.natAbs < UInt64.size := by
    intro m hm
    have hd := (hmem m).1 hm
    have hscaledlt := p.scaled_lt amount m.venue
    have hactuallt : (p.actual.value m.venue).toNat < UInt64.size := UInt64.toNat_lt _
    omega
  obtain ⟨steps, hsteps, hstepsnodup, hstepsmem⟩ := withdrawalSteps_eq_ok hnodup hword
  refine ⟨steps, ?_, hstepsnodup, fun s => ?_⟩
  · simp only [freeingSteps, hrest, hmoves, hsteps, bind, Except.bind]
  · rw [hstepsmem]
    constructor
    · rintro ⟨m, hm, hneg, hv, hamount⟩
      have hd := (hmem m).1 hm
      rw [hv] at hd
      omega
    · rintro ⟨hamount, hsum⟩
      let m : Movement := ⟨s.venue, -s.option.toNat, by omega⟩
      refine ⟨m, (hmem m).2 ?_, ?_, rfl, ?_⟩
      · simp only [m]
        omega
      · simp only [m]
        omega
      · simp [m]

end Client

/-! ## The law -/

theorem freedAt_freeingSteps {p : Projection} {amount : UInt64} {steps : List ReconcileStep}
    (hnodup : (steps.map (·.venue)).Nodup)
    (hmem : ∀ s, s ∈ steps ↔ 0 < s.option.toNat ∧
      p.scaled amount s.venue + s.option.toNat = (p.actual.value s.venue).toNat) (v : Venue) :
    ReconcileStep.freedAt steps v + min (p.actual.value v).toNat (p.scaled amount v) =
      (p.actual.value v).toNat := by
  by_cases hexcess : p.scaled amount v < (p.actual.value v).toNat
  · let s : ReconcileStep := ⟨v, UInt64.ofNat ((p.actual.value v).toNat - p.scaled amount v)⟩
    have hlt := (p.actual.value v).toNat_lt
    have hoption : s.option.toNat = (p.actual.value v).toNat - p.scaled amount v :=
      UInt64.toNat_ofNat_of_lt' (by simp only [UInt64.size]; omega)
    have hs : s ∈ steps := by
      rw [hmem, hoption]
      simp only [s]
      omega
    have hfreed := ReconcileStep.freedAt_of_mem hnodup hs
    rw [hoption] at hfreed
    simp only [s] at hfreed
    omega
  · have hzero : ReconcileStep.freedAt steps v = 0 :=
      ReconcileStep.freedAt_of_not_mem fun s hs hv => by
        have := (hmem s).1 hs
        rw [hv] at this
        omega
    omega

/-- What the reserve holds and the steps free covers the amount. -/
theorem amount_le_freed {p : Projection} {amount : UInt64} {steps : List ReconcileStep}
    {reserve : Nat} (hle : amount ≤ p.total)
    (hcover : p.total.toNat ≤ reserve + p.actual.sum) (htarget : p.target.sum ≤ p.total.toNat)
    (hfreed : ∀ v, ReconcileStep.freedAt steps v +
      min (p.actual.value v).toNat (p.scaled amount v) = (p.actual.value v).toNat) :
    amount.toNat ≤ reserve + ReconcileStep.freed steps := by
  have hscaled : (Venue.all.map (p.scaled amount)).sum ≤ p.total.toNat - amount.toNat :=
    Projection.sum_scaled_le htarget
  have hamount : amount.toNat ≤ p.total.toNat := UInt64.le_iff_toNat_le.1 hle
  have hs := hfreed .solend
  have hp := hfreed .port
  have hj := hfreed .jet
  rw [ReconcileStep.freed_eq_sum]
  simp only [AllocationSet.sum, Venue.all, List.map_cons, List.map_nil, List.sum_cons,
    List.sum_nil] at hcover hscaled ⊢
  omega

/-- A withdrawal that the reserve at hand does not cover takes out of each venue what stands
above its scaled target, in one step that is never zero, and frees at least what is missing. -/
theorem a_shortfall_frees_what_is_missing (p : Projection) (amount : UInt64) (reserve : Nat)
    (hden : p.target.denomination = p.actual.denomination)
    (hpos : 0 < amount) (hle : amount ≤ p.total)
    (hcover : p.total.toNat ≤ reserve + p.actual.sum) (htarget : p.target.sum ≤ p.total.toNat) :
    ∃ rest steps, p.afterWithdrawal amount = .ok rest ∧
      Client.freeingSteps p amount = .ok steps ∧
      (steps.map (·.venue)).Nodup ∧
      (∀ s ∈ steps, 1 ≤ s.option ∧ s.option ≤ p.actual.value s.venue) ∧
      (∀ v, ReconcileStep.freedAt steps v +
        min (p.actual.value v).toNat (rest.target.value v).toNat = (p.actual.value v).toNat) ∧
      amount.toNat ≤ reserve + ReconcileStep.freed steps := by
  have htotal : 0 < p.total := UInt64.lt_of_lt_of_le hpos hle
  obtain ⟨rest, hrest, -, -, hscaled⟩ := Projection.afterWithdrawal_eq_ok htotal hle
  obtain ⟨steps, hsteps, hnodup, hmem⟩ := Client.freeingSteps_eq_ok hden htotal hle
  have hfreed := freedAt_freeingSteps hnodup hmem
  refine ⟨rest, steps, hrest, hsteps, hnodup, ?_, ?_, amount_le_freed hle hcover htarget hfreed⟩
  · intro s hs
    obtain ⟨hoption, hsum⟩ := (hmem s).1 hs
    rw [UInt64.le_iff_toNat_le, UInt64.le_iff_toNat_le]
    exact ⟨hoption, by omega⟩
  · intro v
    rw [hscaled]
    exact hfreed v

/-- A vault of 1000 units that holds 7 of them at no venue, and aims at thirds. -/
def Projection.ofThirds : Projection where
  target := ⟨default, ⟨some 333, some 333, some 333⟩⟩
  actual := ⟨default, ⟨some 600, some 393, none⟩⟩
  total := 1000

theorem a_shortfall_of_a_vault_of_thirds :
    Projection.ofThirds.target.denomination = Projection.ofThirds.actual.denomination ∧
    (0 : UInt64) < 701 ∧ 701 ≤ Projection.ofThirds.total ∧
    Projection.ofThirds.total.toNat ≤ 7 + Projection.ofThirds.actual.sum ∧
    Projection.ofThirds.target.sum ≤ Projection.ofThirds.total.toNat ∧
    ∃ rest steps, Projection.ofThirds.afterWithdrawal 701 = .ok rest ∧
      Client.freeingSteps Projection.ofThirds 701 = .ok steps ∧
      (steps.map (·.venue)).Nodup ∧
      (∀ s ∈ steps, 1 ≤ s.option ∧ s.option ≤ Projection.ofThirds.actual.value s.venue) ∧
      (∀ v, ReconcileStep.freedAt steps v +
        min (Projection.ofThirds.actual.value v).toNat (rest.target.value v).toNat =
          (Projection.ofThirds.actual.value v).toNat) ∧
      (701 : UInt64).toNat ≤ 7 + ReconcileStep.freed steps :=
  ⟨rfl, by decide, by decide, by decide, by decide,
    a_shortfall_frees_what_is_missing Projection.ofThirds 701 7 rfl (by decide) (by decide)
      (by decide) (by decide)⟩

end YieldVault
