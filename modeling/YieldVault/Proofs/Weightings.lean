-- The laws of weights: a list of pairs makes weights unless one of its pairs is above the
-- whole; the weights hold, in venue order, the last of each venue that is listed, and
-- their own list makes them again.
import Mathlib.Data.List.Induction
import YieldVault.Proofs.Outcomes
import YieldVault.Weights

namespace YieldVault

/-- The entries of a map come in venue order. -/
theorem VenueMap.toList_ascending {α : Type} (map : VenueMap α) :
    (toList map).Pairwise fun a b => a.1.index < b.1.index := by
  unfold toList
  rw [List.pairwise_filterMap]
  apply Venue.all_ascending.imp
  intro v w hvw a ha b hb
  obtain ⟨_, -, rfl⟩ := Option.map_eq_some_iff.1 ha
  obtain ⟨_, -, rfl⟩ := Option.map_eq_some_iff.1 hb
  exact hvw

namespace Weights

variable {pairs : List (Venue × UInt16)} {weights weights' : Weights} {v : Venue} {b : UInt16}

theorem ext_get? (h : ∀ v, weights.table.get? v = weights'.table.get? v) : weights = weights' := by
  have htable : weights.table = weights'.table := PerVenue.ext_get h
  obtain ⟨table, hle⟩ := weights
  obtain ⟨table', hle'⟩ := weights'
  subst htable
  rfl

theorem assign_eq_ok_iff :
    weights.assign v b = .ok weights' ↔
      b.toNat ≤ wholeBps ∧ weights'.table = weights.table.insert v b := by
  unfold assign
  by_cases hb : b.toNat ≤ wholeBps
  · rw [dif_pos hb, Except.ok.injEq]
    constructor
    · rintro rfl
      exact ⟨hb, rfl⟩
    · rintro ⟨-, htable⟩
      apply ext_get?
      intro w
      rw [htable]
  · rw [dif_neg hb]
    simp [hb]

/-! ## Last weights -/

/-- The last weight that a list of pairs gives a venue. -/
def lastOf (pairs : List (Venue × UInt16)) (venue : Venue) : Option UInt16 :=
  (pairs.reverse.find? fun p => p.1 = venue).map (·.2)

@[simp] theorem lastOf_nil (v : Venue) : lastOf [] v = Option.none := rfl

@[simp] theorem lastOf_concat (pairs : List (Venue × UInt16)) (p : Venue × UInt16) (v : Venue) :
    lastOf (pairs ++ [p]) v = if p.1 = v then some p.2 else lastOf pairs v := by
  unfold lastOf
  by_cases hp : p.1 = v <;> simp [hp]

/-- The last weight of a venue is that of a pair with no other for the venue behind it. -/
theorem lastOf_eq_some_iff :
    lastOf pairs v = some b ↔
      ∃ before after, pairs = before ++ (v, b) :: after ∧ ∀ p ∈ after, p.1 ≠ v := by
  unfold lastOf
  rw [Option.map_eq_some_iff]
  constructor
  · rintro ⟨⟨w, c⟩, hfind, rfl⟩
    obtain ⟨hfor, behind, ahead, hpairs, hbehind⟩ := List.find?_eq_some_iff_append.1 hfind
    obtain rfl : w = v := by simpa using hfor
    refine ⟨ahead.reverse, behind.reverse, ?_, by simpa using hbehind⟩
    rw [← List.reverse_reverse pairs, hpairs]
    simp
  · rintro ⟨before, after, rfl, hafter⟩
    refine ⟨(v, b), List.find?_eq_some_iff_append.2 ?_, rfl⟩
    refine ⟨by simp, after.reverse, before.reverse, ?_, ?_⟩
    · simp
    · simpa using hafter

theorem exists_lastOf_iff : (∃ b, lastOf pairs v = some b) ↔ ∃ b, (v, b) ∈ pairs := by
  rw [← Option.isSome_iff_exists]
  simp [lastOf]

/-! ## Weights of a list -/

/-- The weights that hold the last weight of each venue. -/
def ofLast (pairs : List (Venue × UInt16)) (h : ∀ p ∈ pairs, p.2.toNat ≤ wholeBps) : Weights where
  table := PerVenue.ofFn (lastOf pairs)
  le_whole := by
    intro v b hb
    rw [VenueMap.get?_ofFn, lastOf_eq_some_iff] at hb
    obtain ⟨before, after, rfl, -⟩ := hb
    exact h (v, b) (by simp)

theorem get?_ofLast (h : ∀ p ∈ pairs, p.2.toNat ≤ wholeBps) (v : Venue) :
    (ofLast pairs h).table.get? v = lastOf pairs v :=
  VenueMap.get?_ofFn _ v

theorem ofList_concat_eq_ok_iff {p : Venue × UInt16} :
    ofList (pairs ++ [p]) = .ok weights ↔
      ∃ earlier, ofList pairs = .ok earlier ∧ p.2.toNat ≤ wholeBps ∧
        weights.table = earlier.table.insert p.1 p.2 := by
  have hstep : ofList (pairs ++ [p]) = ofList pairs >>= fun earlier => earlier.assign p.1 p.2 := by
    simp [ofList, List.foldlM_append]
  rw [hstep, Except.bind_eq_ok_iff]
  simp only [assign_eq_ok_iff]

/-- A list of pairs makes the weights that hold the last weight of each venue, if none of its pairs
is above the whole. -/
theorem ofList_eq_ok_iff :
    ofList pairs = .ok weights ↔
      (∀ p ∈ pairs, p.2.toNat ≤ wholeBps) ∧ ∀ v, weights.table.get? v = lastOf pairs v := by
  induction pairs using List.reverseRecOn generalizing weights with
  | nil =>
    have hstart : ofList [] = .ok none := rfl
    rw [hstart, Except.ok.injEq]
    constructor
    · rintro rfl
      exact ⟨by simp, by simp [none]⟩
    · rintro ⟨-, hget⟩
      apply ext_get?
      intro v
      rw [hget v]
      simp [none]
  | append_singleton pairs p ih =>
    simp only [ofList_concat_eq_ok_iff, ih, List.forall_mem_append, List.forall_mem_singleton,
      lastOf_concat]
    constructor
    · rintro ⟨earlier, ⟨hall, hget⟩, hp, htable⟩
      refine ⟨⟨hall, hp⟩, fun v => ?_⟩
      rw [htable, VenueMap.get?_insert, hget v]
      simp only [eq_comm]
    · rintro ⟨⟨hall, hp⟩, hget⟩
      refine ⟨ofLast pairs hall, ⟨hall, get?_ofLast hall⟩, hp, PerVenue.ext_get fun v => ?_⟩
      calc weights.table.get? v
          = if p.1 = v then some p.2 else lastOf pairs v := hget v
        _ = if v = p.1 then some p.2 else (ofLast pairs hall).table.get? v := by
          rw [get?_ofLast hall]
          simp only [eq_comm]
        _ = ((ofLast pairs hall).table.insert p.1 p.2).get? v := by
          rw [VenueMap.get?_insert]

theorem exists_ofList_iff :
    (∃ weights, ofList pairs = .ok weights) ↔ ∀ p ∈ pairs, p.2.toNat ≤ wholeBps := by
  constructor
  · rintro ⟨weights, h⟩
    exact (ofList_eq_ok_iff.1 h).1
  · intro hall
    exact ⟨ofLast pairs hall, ofList_eq_ok_iff.2 ⟨hall, get?_ofLast hall⟩⟩

theorem mem_toList_iff : (v, b) ∈ weights.toList ↔ weights.table.get? v = some b :=
  VenueMap.mem_toList

/-- In a list that is in venue order each venue has one weight, which is its last. -/
theorem lastOf_of_ascending (hascending : pairs.Pairwise fun p q => p.1.index < q.1.index)
    (h : (v, b) ∈ pairs) : lastOf pairs v = some b := by
  obtain ⟨before, after, rfl⟩ := List.append_of_mem h
  refine lastOf_eq_some_iff.2 ⟨before, after, rfl, ?_⟩
  intro p hp heq
  have hlt := List.rel_of_pairwise_cons (List.pairwise_append.1 hascending).2.1 hp
  rw [heq] at hlt
  exact Nat.lt_irrefl _ hlt

theorem lastOf_toList (weights : Weights) (v : Venue) :
    lastOf weights.toList v = weights.table.get? v := by
  apply Option.ext
  intro b
  rw [← mem_toList_iff]
  constructor
  · intro h
    obtain ⟨before, after, hlist, -⟩ := lastOf_eq_some_iff.1 h
    rw [hlist]
    exact List.mem_append_right _ List.mem_cons_self
  · exact lastOf_of_ascending (VenueMap.toList_ascending _)

/-- The list of some weights makes them again. -/
theorem ofList_toList (weights : Weights) : ofList weights.toList = .ok weights := by
  refine ofList_eq_ok_iff.2 ⟨?_, fun v => (lastOf_toList weights v).symm⟩
  intro p hp
  exact weights.le_whole p.1 p.2 (mem_toList_iff.1 hp)

/-- Whether weights sum up a list of pairs: their own list is in venue order, is about the venues
that are listed, and has the last weight of each. -/
structure SumsUp (weights : Weights) (pairs : List (Venue × UInt16)) : Prop where
  ascending : weights.toList.Pairwise fun p q => p.1.index < q.1.index
  listed : ∀ v, (∃ b, (v, b) ∈ weights.toList) ↔ ∃ b, (v, b) ∈ pairs
  last : ∀ v b, (v, b) ∈ weights.toList ↔
    ∃ before after, pairs = before ++ (v, b) :: after ∧ ∀ p ∈ after, p.1 ≠ v

theorem sumsUp_of_ofList (h : ofList pairs = .ok weights) : weights.SumsUp pairs := by
  obtain ⟨-, hget⟩ := ofList_eq_ok_iff.1 h
  refine ⟨VenueMap.toList_ascending _, fun v => ?_, fun v b => ?_⟩
  · rw [← exists_lastOf_iff, lastOf_toList, hget v, exists_lastOf_iff]
  · rw [mem_toList_iff, hget, lastOf_eq_some_iff]

end Weights

end YieldVault
