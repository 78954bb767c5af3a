-- The laws of outcomes: a computation of parts goes well where every part does.
import Mathlib.Data.List.Forall2
import YieldVault.Error

namespace YieldVault

namespace Except

variable {ε α β : Type}

theorem bind_eq_ok_iff {outcome : Except ε α} {f : α → Except ε β} {b : β} :
    outcome >>= f = .ok b ↔ ∃ a, outcome = .ok a ∧ f a = .ok b := by
  cases outcome with
  | ok a =>
    constructor
    · intro h
      exact ⟨a, rfl, h⟩
    · rintro ⟨_, ⟨⟩, h⟩
      exact h
  | error e =>
    constructor
    · rintro ⟨⟩
    · rintro ⟨_, ⟨⟩, _⟩

/-- Two lists are joined where both are had. -/
theorem bind_append_eq_ok_iff {first rest : Except ε (List α)} {all : List α} :
    (do
      let before ← first
      let after ← rest
      pure (before ++ after)) = .ok all ↔
      ∃ before after, first = .ok before ∧ rest = .ok after ∧ all = before ++ after := by
  constructor
  · intro h
    obtain ⟨before, hbefore, h⟩ := bind_eq_ok_iff.1 h
    obtain ⟨after, hafter, h⟩ := bind_eq_ok_iff.1 h
    cases h
    exact ⟨before, after, hbefore, hafter, rfl⟩
  · rintro ⟨before, after, rfl, rfl, rfl⟩
    rfl

theorem map_eq_ok_iff {outcome : Except ε α} {f : α → β} {b : β} :
    outcome.map f = .ok b ↔ ∃ a, outcome = .ok a ∧ f a = b := by
  cases outcome <;> simp [Except.map]

theorem mapM_eq_ok_iff {f : α → Except ε β} {items : List α} {results : List β} :
    items.mapM f = .ok results ↔ List.Forall₂ (fun a b => f a = .ok b) items results := by
  induction items generalizing results with
  | nil =>
    rw [List.forall₂_nil_left_iff]
    constructor
    · rintro ⟨⟩
      rfl
    · rintro rfl
      rfl
  | cons a rest ih =>
    rw [List.mapM_cons, bind_eq_ok_iff, List.forall₂_cons_left_iff]
    constructor
    · rintro ⟨b, hb, h⟩
      obtain ⟨others, hothers, h⟩ := bind_eq_ok_iff.1 h
      cases h
      exact ⟨b, others, hb, ih.1 hothers, rfl⟩
    · rintro ⟨b, others, hb, hothers, rfl⟩
      exact ⟨b, hb, bind_eq_ok_iff.2 ⟨others, ih.2 hothers, rfl⟩⟩

/-- Results for every item make up a list of results. -/
theorem exists_mapM_eq_ok {f : α → Except ε β} {items : List α}
    (h : ∀ a ∈ items, ∃ b, f a = .ok b) : ∃ results, items.mapM f = .ok results := by
  induction items with
  | nil => exact ⟨[], rfl⟩
  | cons a rest ih =>
    obtain ⟨b, hb⟩ := h a List.mem_cons_self
    obtain ⟨results, hresults⟩ := ih fun x hx => h x (List.mem_cons_of_mem a hx)
    exact ⟨b :: results, by rw [List.mapM_cons, hb, hresults]; rfl⟩

theorem exists_of_mapM_eq_ok {f : α → Except ε β} {items : List α} {results : List β}
    (h : items.mapM f = .ok results) : ∀ a ∈ items, ∃ b, f a = .ok b := by
  induction mapM_eq_ok_iff.1 h with
  | nil => simp
  | cons ha hrest ih => simpa [ha] using ih (mapM_eq_ok_iff.2 hrest)

/-- A list of parts fails as the first of them that does. -/
theorem exists_of_mapM_eq_error {f : α → Except ε β} {items : List α} {e : ε}
    (h : items.mapM f = .error e) :
    ∃ earlier a later, items = earlier ++ a :: later ∧ (∀ x ∈ earlier, ∃ b, f x = .ok b) ∧
      f a = .error e := by
  induction items with
  | nil => cases h
  | cons a rest ih =>
    rw [List.mapM_cons] at h
    cases ha : f a with
    | error e' =>
      rw [ha] at h
      cases h
      exact ⟨[], a, rest, rfl, by simp, ha⟩
    | ok b =>
      cases hrest : rest.mapM f with
      | ok results =>
        rw [ha, hrest] at h
        cases h
      | error e' =>
        rw [ha, hrest] at h
        cases h
        obtain ⟨earlier, bad, later, rfl, hearlier, hbad⟩ := ih hrest
        exact ⟨a :: earlier, bad, later, rfl, by simpa [ha] using hearlier, hbad⟩

end Except

end YieldVault
