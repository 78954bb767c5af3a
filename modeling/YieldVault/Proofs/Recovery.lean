-- The law of recovery: a rebalance that was cut short is taken up again by planning
-- anew. What is planned then is what was left undone, whichever movements had been
-- carried out by that time.
import Mathlib.Data.List.Nodup
import YieldVault.Proofs.Liquidity

namespace YieldVault

/-! ## Values after some movements -/

namespace AllocationSet

variable {target actual : AllocationSet} {movements order : List Movement}

/-- The values once a movement towards a target is carried out: its venue is at the target. -/
def reach (actual target : AllocationSet) (m : Movement) : AllocationSet :=
  { actual with values := actual.values.insert m.venue (target.value m.venue) }

/-- The values once movements are carried out, one after another. -/
def reachAll (actual target : AllocationSet) (done : List Movement) : AllocationSet :=
  done.foldl (fun held m => held.reach target m) actual

theorem value_reach (actual target : AllocationSet) (m : Movement) (v : Venue) :
    (actual.reach target m).value v = if v = m.venue then target.value v else actual.value v := by
  unfold reach value
  by_cases h : v = m.venue
  · subst h
    simp
  · simp [h]

theorem value_reachAll (actual target : AllocationSet) (done : List Movement) (v : Venue) :
    (actual.reachAll target done).value v =
      if v ∈ done.map (·.venue) then target.value v else actual.value v := by
  induction done generalizing actual with
  | nil => simp [reachAll]
  | cons m done ih =>
    have hstep : actual.reachAll target (m :: done) =
        (actual.reach target m).reachAll target done := rfl
    rw [hstep, ih, value_reach]
    by_cases hdone : v ∈ done.map (·.venue)
    · simp [hdone]
    · by_cases hv : v = m.venue
      · simp [hv]
      · simp [hdone, hv]

theorem denomination_reachAll (actual target : AllocationSet) (done : List Movement) :
    (actual.reachAll target done).denomination = actual.denomination := by
  induction done generalizing actual with
  | nil => rfl
  | cons m done ih => exact ih (actual.reach target m)

/-- Nothing is left to move at a venue that was reached, and as much as before at any other. -/
theorem delta_reachAll (target actual : AllocationSet) (done : List Movement) (v : Venue) :
    target.delta (actual.reachAll target done) v =
      if v ∈ done.map (·.venue) then 0 else target.delta actual v := by
  unfold delta
  rw [value_reachAll]
  split
  · omega
  · rfl

/-! ## What is left to move -/

/-- What is planned once some movements are carried out is what was planned before, less the venues
that were reached. -/
theorem mem_movements_reachAll {done rest : List Movement}
    (h : target.movements actual = .ok movements)
    (hrest : target.movements (actual.reachAll target done) = .ok rest) {m : Movement} :
    m ∈ rest ↔ m ∈ movements ∧ m.venue ∉ done.map (·.venue) := by
  rw [mem_movements hrest, mem_movements h, delta_reachAll]
  by_cases hdone : m.venue ∈ done.map (·.venue)
  · -- a movement is never of nothing
    simp only [hdone, if_true, not_true_eq_false, and_false, iff_false]
    exact m.delta_ne_zero
  · simp [hdone]

theorem exists_movements_reachAll (hsame : target.denomination = actual.denomination)
    (done : List Movement) :
    ∃ rest, target.movements (actual.reachAll target done) = .ok rest := by
  refine ⟨_, movements_eq_ok_iff.2 ⟨?_, rfl⟩⟩
  rw [denomination_reachAll]
  exact hsame

/-- Once the first movements of an order are carried out, the others are what is left. -/
theorem movements_reachAll_perm {rest : List Movement} {k : Nat}
    (h : target.movements actual = .ok movements) (hperm : order.Perm movements)
    (hrest : target.movements (actual.reachAll target (order.take k)) = .ok rest) :
    rest.Perm (order.drop k) := by
  have hvenues : (order.map (·.venue)).Nodup := (hperm.map _).nodup_iff.2 (nodup_venues h)
  have hsplit : order = order.take k ++ order.drop k := (List.take_append_drop k order).symm
  rw [hsplit, List.map_append, List.nodup_append] at hvenues
  obtain ⟨-, hdrop, hapart⟩ := hvenues
  have hleft : (order.drop k).Nodup := hdrop.of_map _
  refine (List.perm_ext_iff_of_nodup ((nodup_venues hrest).of_map _) hleft).2 fun m => ?_
  rw [mem_movements_reachAll h hrest, ← hperm.mem_iff]
  constructor
  · rintro ⟨hm, hfresh⟩
    rw [hsplit] at hm
    rcases List.mem_append.1 hm with hdone | hm
    · exact absurd (List.mem_map_of_mem hdone) hfresh
    · exact hm
  · intro hm
    refine ⟨List.mem_of_mem_drop hm, fun hdone => ?_⟩
    exact hapart _ hdone _ (List.mem_map_of_mem hm) rfl

end AllocationSet

/-! ## The law -/

namespace Movement

/-- Where no two deltas are equal, movements have only one ascending order. -/
theorem eq_of_ascending {order other : List Movement} (hperm : other.Perm order)
    (horder : order.Pairwise fun a b => a.delta ≤ b.delta)
    (hother : other.Pairwise fun a b => a.delta ≤ b.delta)
    (hdistinct : (order.map (·.delta)).Nodup) : other = order := by
  refine hperm.eq_of_pairwise (fun a b ha hb hab hba => ?_) hother horder
  apply List.inj_on_of_nodup_map hdistinct (hperm.mem_iff.1 ha) hb
  omega

end Movement

open Movement

/-- However far an ascending order of the movements towards a target has come, planning anew from
what the venues then hold orders just the movements that are left, each with the delta that it had:
no venue that was reached is touched again, and none that was not is lost. So the new plan is the
end of the old one where no two deltas are equal, and it is empty where the old one was carried out
in full. -/
theorem an_interrupted_rebalance_is_taken_up_where_it_stopped {target actual : AllocationSet}
    (hsame : target.denomination = actual.denomination) :
    ∃ movements, target.movements actual = .ok movements ∧
      Ascending (inOrder movements) movements ∧
      ∀ order, Ascending order movements → ∀ k,
        ∃ rest, target.movements (actual.reachAll target (order.take k)) = .ok rest ∧
          Ascending (inOrder rest) (order.drop k) ∧
          (∀ other, Ascending other rest →
            Ascending other (order.drop k) ∧
            (((order.drop k).map (·.delta)).Nodup → other = order.drop k)) ∧
          (∀ m ∈ rest, m.venue ∉ (order.take k).map (·.venue)) ∧
          (order.length ≤ k → rest = []) := by
  obtain ⟨movements, hmovements⟩ := AllocationSet.exists_movements_reachAll hsame []
  have hplanned : target.movements actual = .ok movements := hmovements
  refine ⟨movements, hplanned, inOrder_isAscending movements, ?_⟩
  intro order horder k
  obtain ⟨rest, hrest⟩ := AllocationSet.exists_movements_reachAll hsame (order.take k)
  have hleft : rest.Perm (order.drop k) :=
    AllocationSet.movements_reachAll_perm hplanned horder.perm hrest
  have hascending : (order.drop k).Pairwise fun a b => a.delta ≤ b.delta :=
    horder.ascending.sublist (List.drop_sublist k order)
  have hanew : ∀ other, Ascending other rest → Ascending other (order.drop k) := by
    intro other hother
    exact ⟨hother.perm.trans hleft, hother.ascending⟩
  refine ⟨rest, hrest, hanew _ (inOrder_isAscending rest), ?_, ?_, ?_⟩
  · intro other hother
    refine ⟨hanew other hother, fun hdistinct => ?_⟩
    exact eq_of_ascending (hother.perm.trans hleft) hascending hother.ascending hdistinct
  · intro m hm
    exact ((AllocationSet.mem_movements_reachAll hplanned hrest).1 hm).2
  · intro hfinished
    rw [List.drop_eq_nil_of_le hfinished] at hleft
    exact hleft.eq_nil

namespace Interrupted

/-- What is aimed at; nothing is to stay at the second venue. -/
def target : AllocationSet := ⟨default, ⟨some 400, none, some 600⟩⟩

/-- What is held; nothing was ever at the third venue. -/
def actual : AllocationSet := ⟨default, ⟨some 330, some 330, none⟩⟩

theorem three_venues_are_taken_up_where_they_stopped :
    target.denomination = actual.denomination ∧
    ∃ movements, target.movements actual = .ok movements ∧
      Ascending (inOrder movements) movements ∧
      ∀ order, Ascending order movements → ∀ k,
        ∃ rest, target.movements (actual.reachAll target (order.take k)) = .ok rest ∧
          Ascending (inOrder rest) (order.drop k) ∧
          (∀ other, Ascending other rest →
            Ascending other (order.drop k) ∧
            (((order.drop k).map (·.delta)).Nodup → other = order.drop k)) ∧
          (∀ m ∈ rest, m.venue ∉ (order.take k).map (·.venue)) ∧
          (order.length ≤ k → rest = []) :=
  ⟨rfl, an_interrupted_rebalance_is_taken_up_where_it_stopped rfl⟩

end Interrupted

end YieldVault
