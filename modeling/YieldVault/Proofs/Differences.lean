-- The law of differences: what is planned between two allocations is, venue by venue,
-- what the target has over the actual values. Nothing else is moved, and the plan the
-- other way is the same plan with every delta turned round.
import YieldVault.Proofs.Rebalances

namespace YieldVault

/-! ## Carrying movements out -/

namespace Movement

/-- The movement the other way. -/
def reversed (m : Movement) : Movement where
  venue := m.venue
  delta := -m.delta
  delta_ne_zero := by
    have h := m.delta_ne_zero
    omega

/-- What stands at each venue once movements have put in, or taken out, what they are of. -/
def moveAll (held : PerVenue Int) (movements : List Movement) : PerVenue Int :=
  movements.foldl (fun held m => held.set m.venue (held.get m.venue + m.delta)) held

theorem get_moveAll_of_not_mem {held : PerVenue Int} {movements : List Movement} {v : Venue}
    (hv : v ∉ movements.map (·.venue)) : (moveAll held movements).get v = held.get v := by
  induction movements generalizing held with
  | nil => rfl
  | cons m rest ih =>
    rw [List.map_cons, List.mem_cons, not_or] at hv
    obtain ⟨hm, hrest⟩ := hv
    have hstep : moveAll held (m :: rest) =
        moveAll (held.set m.venue (held.get m.venue + m.delta)) rest := rfl
    rw [hstep, ih hrest]
    simp [hm]

/-- Where each venue is moved once at most, it ends up with its one delta more. -/
theorem get_moveAll {held : PerVenue Int} {movements : List Movement}
    (hnodup : (movements.map (·.venue)).Nodup) {m : Movement} (hm : m ∈ movements) :
    (moveAll held movements).get m.venue = held.get m.venue + m.delta := by
  induction movements generalizing held with
  | nil => simp at hm
  | cons first rest ih =>
    rw [List.map_cons, List.nodup_cons] at hnodup
    obtain ⟨hfirst, hrest⟩ := hnodup
    have hstep : moveAll held (first :: rest) =
        moveAll (held.set first.venue (held.get first.venue + first.delta)) rest := rfl
    rw [hstep]
    rcases List.mem_cons.1 hm with rfl | hm
    · rw [get_moveAll_of_not_mem hfirst]
      simp
    · have hother : m.venue ≠ first.venue := by
        intro heq
        apply hfirst
        rw [← heq]
        exact List.mem_map_of_mem hm
      rw [ih hrest hm]
      simp [hother]

theorem map_reversed_filterMap_of? (venues : List Venue) (d : Venue → Int) :
    (venues.filterMap fun v => of? v (d v)).map reversed =
      venues.filterMap fun v => of? v (-d v) := by
  induction venues with
  | nil => rfl
  | cons v vs ih =>
    by_cases h : d v = 0
    · simpa [of?, h] using ih
    · simpa [of?, h, reversed] using ih

theorem direction_eq_withdraw_iff {m : Movement} : m.direction = .withdraw ↔ m.delta < 0 := by
  unfold direction
  by_cases h : m.delta < 0
  · simp [h]
  · simp [h]

end Movement

open Movement

namespace AllocationSet

variable {target actual : AllocationSet} {movements : List Movement}

/-- The values as numbers that movements can be carried out on. -/
def held (set : AllocationSet) : PerVenue Int := .ofFn fun v => (set.value v).toNat

/-! ## What is planned -/

/-- What the movements are that lead from the actual values to a target. -/
structure Differences (target actual : AllocationSet) (movements : List Movement) : Prop where
  /-- Venue after venue, so none is moved twice. -/
  ordered : movements.Pairwise fun a b => a.venue.index < b.venue.index
  /-- A venue is moved exactly where the values differ; one without an entry holds nothing. -/
  moved : ∀ v, v ∈ movements.map (·.venue) ↔ target.value v ≠ actual.value v
  delta : ∀ m ∈ movements,
    m.delta = (target.value m.venue).toNat - (actual.value m.venue).toNat
  direction : ∀ m ∈ movements, m.direction = .withdraw ↔ m.delta < 0
  /-- What is moved is a word, and it is the distance between the two values. -/
  amount : ∀ m ∈ movements, ∃ amount, m.amount = .ok amount ∧ amount.toNat = m.delta.natAbs
  reaches : moveAll actual.held movements = target.held
  reversed : actual.movements target = .ok (movements.map Movement.reversed)
  none : movements = [] ↔ ∀ v, target.value v = actual.value v

theorem mem_venues_iff (h : target.movements actual = .ok movements) (v : Venue) :
    v ∈ movements.map (·.venue) ↔ target.value v ≠ actual.value v := by
  rw [(movements_eq_ok_iff.1 h).2, venues_filterMap_of?, List.mem_filter, ← delta_ne_zero_iff]
  simp [v.mem_all]

theorem ordered_movements (h : target.movements actual = .ok movements) :
    movements.Pairwise fun a b => a.venue.index < b.venue.index := by
  rw [(movements_eq_ok_iff.1 h).2]
  exact ascending_filterMap_delta target actual

theorem natAbs_delta_lt (target actual : AllocationSet) (v : Venue) :
    (target.delta actual v).natAbs < UInt64.size := by
  have htarget := (target.value v).toNat_lt
  have hactual := (actual.value v).toNat_lt
  unfold delta UInt64.size
  omega

theorem moveAll_movements (h : target.movements actual = .ok movements) :
    moveAll actual.held movements = target.held := by
  apply PerVenue.ext_get
  intro v
  have hheld : ∀ set : AllocationSet, set.held.get v = (set.value v).toNat :=
    fun set => PerVenue.get_ofFn _ v
  by_cases hv : v ∈ movements.map (·.venue)
  · obtain ⟨m, hm, rfl⟩ := List.mem_map.1 hv
    rw [get_moveAll (nodup_venues h) hm, (mem_movements h).1 hm, hheld, hheld, delta]
    omega
  · rw [get_moveAll_of_not_mem hv, hheld, hheld]
    rw [mem_venues_iff h, not_not] at hv
    rw [hv]

theorem movements_reversed (h : target.movements actual = .ok movements) :
    actual.movements target = .ok (movements.map reversed) := by
  obtain ⟨hsame, rfl⟩ := movements_eq_ok_iff.1 h
  rw [map_reversed_filterMap_of?]
  refine movements_eq_ok_iff.2 ⟨hsame.symm, ?_⟩
  congr 1
  funext v
  congr 1
  unfold delta
  omega

theorem movements_eq_nil_iff (h : target.movements actual = .ok movements) :
    movements = [] ↔ ∀ v, target.value v = actual.value v := by
  rw [← List.map_eq_nil_iff (f := fun m : Movement => m.venue), List.eq_nil_iff_forall_not_mem]
  simp only [mem_venues_iff h, not_not]

theorem differences_of_movements (h : target.movements actual = .ok movements) :
    target.Differences actual movements where
  ordered := ordered_movements h
  moved := mem_venues_iff h
  delta := fun m hm => (mem_movements h).1 hm
  direction := fun _ _ => direction_eq_withdraw_iff
  amount := by
    intro m hm
    have hlt : m.delta.natAbs < UInt64.size := by
      rw [(mem_movements h).1 hm]
      exact natAbs_delta_lt target actual m.venue
    exact ⟨_, amount?_of_lt hlt, UInt64.toNat_ofNat_of_lt' hlt⟩
  reaches := moveAll_movements h
  reversed := movements_reversed h
  none := movements_eq_nil_iff h

end AllocationSet

/-! ## The law -/

/-- Between two allocations of different mints nothing is planned, and the refusal names both mints.
Otherwise what is planned is exactly what the target has over the actual values. -/
theorem a_plan_is_what_the_target_has_over_the_actual_values (target actual : AllocationSet) :
    match target.movements actual with
    | .error e => target.denomination ≠ actual.denomination ∧
        e = .denominationMismatch actual.denomination target.denomination
    | .ok movements => target.denomination = actual.denomination ∧
        target.Differences actual movements := by
  cases h : target.movements actual with
  | error e =>
    exact AllocationSet.movements_eq_error_iff.1 h
  | ok movements =>
    exact ⟨(AllocationSet.movements_eq_ok_iff.1 h).1, AllocationSet.differences_of_movements h⟩

/-- All that a word can hold is taken out of one venue, and put into one that has no entry yet. -/
example :
    AllocationSet.movements ⟨default, ⟨some 7, none, some 18446744073709551615⟩⟩
      ⟨default, ⟨some 7, some 18446744073709551615, none⟩⟩ =
    .ok [⟨.port, -18446744073709551615, by decide⟩, ⟨.jet, 18446744073709551615, by decide⟩] :=
  AllocationSet.movements_eq_ok_iff.2 ⟨rfl, by decide⟩

end YieldVault
