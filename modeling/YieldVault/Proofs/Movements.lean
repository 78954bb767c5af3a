-- The laws of movements: what the movements between two allocations are, what
-- they come to in all, and what putting them in order does to them. The reserve
-- pays for every deposit and takes in every withdrawal.
import Mathlib.Algebra.BigOperators.Group.List.Basic
import Mathlib.Algebra.Ring.Int.Defs
import Mathlib.Algebra.Ring.Nat
import Mathlib.Algebra.Order.Group.Int
import Mathlib.Data.List.Nodup
import YieldVault.Movement

namespace YieldVault

/-! ## Sums -/

/-- The value at all venues together. -/
def AllocationSet.sum (set : AllocationSet) : Nat :=
  (Venue.all.map fun v => (set.value v).toNat).sum

namespace Movement

/-- What movements put into the venues, less what they take out. -/
def total (movements : List Movement) : Int := (movements.map (·.delta)).sum

/-- The reserve after movements, one after another: each takes its delta out of the reserve. -/
def reserveAfter (reserve : Int) (movements : List Movement) : Int :=
  movements.foldl (fun left m => left - m.delta) reserve

@[simp] theorem total_nil : total [] = 0 := rfl

@[simp] theorem total_cons (m : Movement) (ms : List Movement) :
    total (m :: ms) = m.delta + total ms := by simp [total]

@[simp] theorem total_append (xs ys : List Movement) : total (xs ++ ys) = total xs + total ys := by
  simp [total]

theorem total_perm {xs ys : List Movement} (h : xs.Perm ys) : total xs = total ys :=
  (h.map _).sum_eq

theorem reserveAfter_eq (reserve : Int) (ms : List Movement) :
    reserveAfter reserve ms = reserve - total ms := by
  induction ms generalizing reserve with
  | nil => simp [reserveAfter]
  | cons m ms ih =>
    have hstep : reserveAfter reserve (m :: ms) = reserveAfter (reserve - m.delta) ms := rfl
    rw [hstep, ih, total_cons]
    omega

theorem total_nonpos {ms : List Movement} (h : ∀ m ∈ ms, m.delta ≤ 0) : total ms ≤ 0 := by
  induction ms with
  | nil => simp
  | cons m ms ih =>
    have hm := h m List.mem_cons_self
    have hms := ih fun x hx => h x (List.mem_cons_of_mem m hx)
    rw [total_cons]
    omega

theorem total_nonneg {ms : List Movement} (h : ∀ m ∈ ms, 0 ≤ m.delta) : 0 ≤ total ms := by
  induction ms with
  | nil => simp
  | cons m ms ih =>
    have hm := h m List.mem_cons_self
    have hms := ih fun x hx => h x (List.mem_cons_of_mem m hx)
    rw [total_cons]
    omega

/-! ## The movements in order -/

theorem inOrder_perm (ms : List Movement) : (inOrder ms).Perm ms := List.mergeSort_perm ms _

/-- What is sorted by a key ascends in it. -/
theorem mergeSort_ascending {κ : Type} [LinearOrder κ] (key : Movement → κ) (ms : List Movement) :
    (ms.mergeSort fun a b => decide (key a ≤ key b)).Pairwise fun a b => key a ≤ key b := by
  have h : (ms.mergeSort fun a b => decide (key a ≤ key b)).Pairwise
      fun a b => decide (key a ≤ key b) = true := by
    apply List.pairwise_mergeSort
    · intro a b c hab hbc
      rw [decide_eq_true_eq] at hab hbc ⊢
      exact hab.trans hbc
    · intro a b
      rw [Bool.or_eq_true, decide_eq_true_eq, decide_eq_true_eq]
      exact le_total _ _
  exact h.imp fun hab => by simpa using hab

theorem inOrder_ascending (ms : List Movement) :
    (inOrder ms).Pairwise fun a b => a.delta ≤ b.delta :=
  mergeSort_ascending (·.delta) ms

/-! ## The movements between two allocations -/

theorem of?_eq_some {v : Venue} {d : Int} {m : Movement} :
    of? v d = some m ↔ m.venue = v ∧ m.delta = d := by
  unfold of?
  split
  · rename_i hd
    simp only [reduceCtorEq, false_iff, not_and]
    exact fun _ h => m.delta_ne_zero (h.trans hd)
  · constructor
    · rintro ⟨rfl⟩
      exact ⟨rfl, rfl⟩
    · rintro ⟨rfl, rfl⟩
      rfl

theorem ext_delta {a b : Movement} (hvenue : a.venue = b.venue) (hdelta : a.delta = b.delta) :
    a = b := by
  cases a; cases b
  simp_all

theorem total_filterMap_of? (venues : List Venue) (d : Venue → Int) :
    total (venues.filterMap fun v => of? v (d v)) = (venues.map d).sum := by
  induction venues with
  | nil => rfl
  | cons v vs ih =>
    rw [List.map_cons, List.sum_cons, ← ih]
    by_cases h : d v = 0
    · simp [of?, h]
    · simp [of?, h]

theorem venues_filterMap_of? (venues : List Venue) (d : Venue → Int) :
    (venues.filterMap fun v => of? v (d v)).map (·.venue) = venues.filter (d · ≠ 0) := by
  induction venues with
  | nil => rfl
  | cons v vs ih =>
    by_cases h : d v = 0
    · simpa [of?, h] using ih
    · simpa [of?, h] using ih

end Movement

namespace AllocationSet

variable {target actual : AllocationSet} {movements : List Movement}

theorem mem_listed {v : Venue} :
    v ∈ target.listed actual ↔ target.values.contains v ∨ actual.values.contains v := by
  have hvenues : ∀ map : VenueMap UInt64, v ∈ map.venues ↔ map.contains v = true := by
    intro map
    simp [VenueMap.venues_eq_filter, v.mem_all]
  rw [listed, List.mem_append, List.mem_filter, hvenues, hvenues]
  cases target.values.contains v <;> simp

/-- A venue with entries in both allocations is listed with the target's alone. -/
theorem nodup_listed (target actual : AllocationSet) : (target.listed actual).Nodup := by
  have hvenues : ∀ map : VenueMap UInt64, map.venues.Nodup := by
    intro map
    rw [VenueMap.venues_eq_filter]
    exact List.filter_sublist.nodup (by decide)
  rw [listed, List.nodup_append]
  refine ⟨hvenues _, List.filter_sublist.nodup (hvenues _), ?_⟩
  rintro v hv w hw rfl
  rw [VenueMap.venues_eq_filter, List.mem_filter] at hv
  simp [hv.2] at hw

/-- Where neither allocation has an entry there is nothing to move. -/
theorem mem_listed_of_delta_ne_zero {v : Venue} (h : target.delta actual v ≠ 0) :
    v ∈ target.listed actual := by
  rw [mem_listed]
  by_contra hnone
  simp only [VenueMap.contains, not_or, Option.not_isSome_iff_eq_none] at hnone
  simp [delta, value, hnone.1, hnone.2] at h

/-- Along any list of venues that has all that differ, the same movements come up. -/
theorem mem_filterMap_delta {venues : List Venue}
    (hall : ∀ v, target.delta actual v ≠ 0 → v ∈ venues) {m : Movement} :
    (m ∈ venues.filterMap fun v => Movement.of? v (target.delta actual v)) ↔
      m.delta = target.delta actual m.venue := by
  rw [List.mem_filterMap]
  constructor
  · rintro ⟨v, -, hv⟩
    obtain ⟨rfl, hd⟩ := Movement.of?_eq_some.1 hv
    exact hd
  · intro hd
    exact ⟨m.venue, hall _ (hd ▸ m.delta_ne_zero), Movement.of?_eq_some.2 ⟨rfl, hd⟩⟩

theorem nodup_filterMap_delta {venues : List Venue} (hnodup : venues.Nodup) :
    (venues.filterMap fun v => Movement.of? v (target.delta actual v)).Nodup := by
  apply List.Nodup.of_map (·.venue)
  rw [Movement.venues_filterMap_of?]
  exact List.filter_sublist.nodup hnodup

/-- The movements along all venues are in the order of the venues. -/
theorem ascending_filterMap_delta (target actual : AllocationSet) :
    (Venue.all.filterMap fun v => Movement.of? v (target.delta actual v)).Pairwise
      fun a b => a.venue.index < b.venue.index := by
  rw [← List.pairwise_map (f := fun m : Movement => m.venue) (R := fun v w => v.index < w.index),
    Movement.venues_filterMap_of?]
  exact Venue.all_ascending.sublist List.filter_sublist

/-- In whichever order the venues are listed, the movements once sorted are those met along all
venues: both are in venue order, and they are the same, each of them once. -/
theorem mergeSort_listed (target actual : AllocationSet) :
    ((target.listed actual).filterMap fun v => Movement.of? v (target.delta actual v)).mergeSort
        (fun a b => decide (a.venue.index ≤ b.venue.index)) =
      Venue.all.filterMap fun v => Movement.of? v (target.delta actual v) := by
  have hall := ascending_filterMap_delta target actual
  have hsame := (List.perm_ext_iff_of_nodup (nodup_filterMap_delta (nodup_listed target actual))
    (hall.imp fun hlt heq => by simp [heq] at hlt)).2 fun m => by
      rw [mem_filterMap_delta fun _ => mem_listed_of_delta_ne_zero,
        mem_filterMap_delta fun v _ => v.mem_all]
  have hperm := (List.mergeSort_perm _ fun a b => decide (a.venue.index ≤ b.venue.index)).trans hsame
  refine hperm.eq_of_pairwise ?_ (Movement.mergeSort_ascending (·.venue.index) _)
    (hall.imp Nat.le_of_lt)
  intro a b ha hb hab hba
  have hvenue : a.venue = b.venue := Venue.index_inj.1 (Nat.le_antisymm hab hba)
  rw [hperm.mem_iff, mem_filterMap_delta fun v _ => v.mem_all] at ha
  rw [mem_filterMap_delta fun v _ => v.mem_all, ← hvenue, ← ha] at hb
  exact Movement.ext_delta hvenue hb.symm

theorem movements_eq_ok_iff :
    target.movements actual = .ok movements ↔
      target.denomination = actual.denomination ∧
        movements = Venue.all.filterMap fun v => Movement.of? v (target.delta actual v) := by
  unfold AllocationSet.movements
  simp only [mergeSort_listed]
  split
  · rename_i hd
    rw [Except.ok.injEq, eq_comm]
    simp [hd]
  · rename_i hd
    simp [hd]

theorem movements_eq_error_iff {e : Error} :
    target.movements actual = .error e ↔
      target.denomination ≠ actual.denomination ∧
        e = .denominationMismatch actual.denomination target.denomination := by
  unfold AllocationSet.movements
  split
  · rename_i hd
    simp [hd]
  · rename_i hd
    rw [Except.error.injEq, eq_comm]
    simp [hd]

theorem mem_movements (h : target.movements actual = .ok movements) {m : Movement} :
    m ∈ movements ↔ m.delta = target.delta actual m.venue := by
  rw [(movements_eq_ok_iff.1 h).2]
  exact mem_filterMap_delta fun v _ => v.mem_all

theorem nodup_venues (h : target.movements actual = .ok movements) :
    (movements.map (·.venue)).Nodup := by
  rw [(movements_eq_ok_iff.1 h).2, Movement.venues_filterMap_of?]
  exact List.filter_sublist.nodup (by decide)

/-- In all, movements put into the venues what the target is above the actual values. -/
theorem total_movements (h : target.movements actual = .ok movements) :
    Movement.total movements = target.sum - actual.sum := by
  rw [(movements_eq_ok_iff.1 h).2, Movement.total_filterMap_of?]
  simp [AllocationSet.sum, Venue.all, delta]
  omega

end AllocationSet

end YieldVault
