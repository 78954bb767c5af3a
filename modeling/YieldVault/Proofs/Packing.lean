-- The laws of packing: batches hold the reconciles they were packed from, in
-- order, touch no venue but those named as refreshable, stay under the ceiling, and
-- refresh each venue before they reconcile it.
import YieldVault.Batch.Packing
import YieldVault.Proofs.Outcomes

namespace YieldVault

namespace Batch

/-! ## One batch -/

theorem single_eq_ok {ceiling : Nat} {batch packed : Batch} (h : single ceiling batch = .ok packed) :
    packed = batch ∧ batch.operands ≤ ceiling ∧ batch.isRefreshedFirst := by
  unfold single at h
  split at h
  · cases h
  · rename_i hle
    split at h
    · rename_i hfirst
      cases h
      exact ⟨rfl, by omega, hfirst⟩
    · cases h

/-! ## Packed reconciles -/

theorem reconciles_refreshes (kind : BatchKind) (venues : List Venue) (signers : List Key) :
    reconciles ⟨kind, venues.map .refresh, signers⟩ = [] := by
  induction venues with
  | nil => rfl
  | cons v vs ih => exact ih

theorem reconciles_steps (kind : BatchKind) (steps : List ReconcileStep) (signers : List Key) :
    reconciles ⟨kind, steps.map .reconcile, signers⟩ = steps := by
  induction steps with
  | nil => rfl
  | cons s ss ih => exact congrArg (s :: ·) ih

@[simp] theorem reconciles_close (b : Open) : b.close.reconciles = b.steps := by
  calc b.close.reconciles
      = reconciles ⟨.reconcile, b.venues.map .refresh, []⟩ ++
          reconciles ⟨.reconcile, b.steps.map .reconcile, []⟩ := List.filterMap_append
    _ = b.steps := by rw [reconciles_refreshes, reconciles_steps, List.nil_append]

theorem reconciles_packFrom {ceiling : Nat} {refreshable : List Venue} {b : Open}
    {steps : List ReconcileStep} {batches : List Batch}
    (h : packFrom ceiling refreshable b steps = .ok batches) :
    batches.flatMap reconciles = b.steps ++ steps := by
  induction steps generalizing b batches with
  | nil =>
    simp only [packFrom, Except.ok.injEq] at h
    subst h
    split
    · rename_i hb
      simp_all
    · simp
  | cons step rest ih =>
    rw [packFrom] at h
    split at h
    · cases h
    split at h
    · -- the step joins the open batch
      rw [ih h]
      simp [Open.add]
    · -- the step opens a batch of its own
      obtain ⟨others, hothers, rfl⟩ := Except.map_eq_ok_iff.1 h
      simp [ih hothers, Open.add, Open.empty]

/-- Packing loses no reconcile, adds none, and keeps their order. -/
theorem reconciles_pack {ceiling : Nat} {refreshable : List Venue} {steps : List ReconcileStep}
    {batches : List Batch} (h : pack ceiling refreshable steps = .ok batches) :
    batches.flatMap reconciles = steps := by
  unfold pack at h
  split at h
  · cases h
  · simpa [Open.empty] using reconciles_packFrom h

/-- An open batch touches only refreshable venues. -/
structure Open.Within (refreshable : List Venue) (b : Open) : Prop where
  venues : ∀ v ∈ b.venues, v ∈ refreshable
  steps : ∀ s ∈ b.steps, s.venue ∈ refreshable

theorem Open.within_empty (refreshable : List Venue) : Open.empty.Within refreshable := by
  constructor <;> simp [Open.empty]

theorem Open.Within.add {refreshable : List Venue} {b : Open} {step : ReconcileStep}
    (h : b.Within refreshable) (hstep : step.venue ∈ refreshable) :
    (b.add step).Within refreshable := by
  constructor
  · intro v hv
    simp only [Open.add] at hv
    split at hv
    · exact h.venues v hv
    · rcases List.mem_append.1 hv with hv | hv
      · exact h.venues v hv
      · rwa [List.mem_singleton.1 hv]
  · intro s hs
    rcases List.mem_append.1 hs with hs | hs
    · exact h.steps s hs
    · rwa [List.mem_singleton.1 hs]

/-- What opening a batch and adding to it keep is true of every batch that is closed. -/
theorem closed_of_packFrom {P : Open → Prop} {ceiling : Nat} {refreshable : List Venue}
    (hopen : ∀ step, step.venue ∈ refreshable → P (Open.empty.add step))
    (hadd : ∀ b step, P b → step.venue ∈ refreshable → b.operands + b.cost step ≤ ceiling →
      P (b.add step))
    {b : Open} {steps : List ReconcileStep} {batches : List Batch} (hb : P b)
    (h : packFrom ceiling refreshable b steps = .ok batches) {batch : Batch}
    (hbatch : batch ∈ batches) : ∃ o : Open, P o ∧ batch = o.close := by
  induction steps generalizing b batches with
  | nil =>
    simp only [packFrom, Except.ok.injEq] at h
    subst h
    split at hbatch
    · cases hbatch
    · exact ⟨b, hb, List.mem_singleton.1 hbatch⟩
  | cons step rest ih =>
    rw [packFrom] at h
    split at h
    · cases h
    rename_i hstep
    rw [Decidable.not_not] at hstep
    split at h
    · rename_i hfits
      exact ih (hadd b step hb hstep hfits) h hbatch
    · obtain ⟨others, hothers, rfl⟩ := Except.map_eq_ok_iff.1 h
      rcases List.mem_cons.1 hbatch with rfl | hbatch
      · exact ⟨b, hb, rfl⟩
      · exact ih (hopen step hstep) hothers hbatch

/-- Every packed batch is a closed one that touches only refreshable venues. -/
theorem within_of_pack {ceiling : Nat} {refreshable : List Venue} {steps : List ReconcileStep}
    {batches : List Batch} (h : pack ceiling refreshable steps = .ok batches) {batch : Batch}
    (hbatch : batch ∈ batches) : ∃ o : Open, o.Within refreshable ∧ batch = o.close := by
  unfold pack at h
  split at h
  · cases h
  · exact closed_of_packFrom (fun _ hstep => (Open.within_empty refreshable).add hstep)
      (fun _ _ hb hstep _ => hb.add hstep) (Open.within_empty refreshable) h hbatch

theorem kind_of_pack {ceiling : Nat} {refreshable : List Venue} {steps : List ReconcileStep}
    {batches : List Batch} (h : pack ceiling refreshable steps = .ok batches) :
    ∀ batch ∈ batches, batch.kind = .reconcile := by
  intro batch hbatch
  obtain ⟨b, -, rfl⟩ := within_of_pack h hbatch
  rfl

/-- A packed batch refreshes and reconciles refreshable venues, and does nothing else. -/
theorem mem_operations_of_pack {ceiling : Nat} {refreshable : List Venue}
    {steps : List ReconcileStep} {batches : List Batch}
    (h : pack ceiling refreshable steps = .ok batches) {batch : Batch} (hbatch : batch ∈ batches)
    {op : Operation} (hop : op ∈ batch.operations) :
    (∃ v ∈ refreshable, op = .refresh v) ∨
      ∃ step : ReconcileStep, step.venue ∈ refreshable ∧ op = .reconcile step := by
  obtain ⟨b, hb, rfl⟩ := within_of_pack h hbatch
  rcases List.mem_append.1 hop with hop | hop
  · obtain ⟨v, hv, rfl⟩ := List.mem_map.1 hop
    exact .inl ⟨v, hb.venues v hv, rfl⟩
  · obtain ⟨step, hstep, rfl⟩ := List.mem_map.1 hop
    exact .inr ⟨step, hb.steps step hstep, rfl⟩

/-! ## Sound batches -/

/-- A batch that a ceiling allows, and that refreshes what it reconciles. -/
structure Sound (ceiling : Nat) (batch : Batch) : Prop where
  fits : batch.operands ≤ ceiling
  fresh : batch.isRefreshedFirst

theorem sound_of_single {ceiling : Nat} {batch : Batch} (h : single ceiling batch = .ok batch) :
    batch.Sound ceiling := by
  obtain ⟨-, hfits, hfresh⟩ := single_eq_ok h
  exact ⟨hfits, hfresh⟩

theorem total_append (first rest : List Operation) :
    Operation.total (first ++ rest) = Operation.total first + Operation.total rest := by
  induction first with
  | nil => simp [Operation.total]
  | cons op first ih =>
    rw [List.cons_append, Operation.total, Operation.total, ih]
    omega

theorem total_refreshes (venues : List Venue) :
    Operation.total (venues.map .refresh) = venues.length := by
  induction venues with
  | nil => rfl
  | cons v vs ih =>
    rw [List.map_cons, Operation.total, ih, List.length_cons, Nat.add_comm]
    rfl

theorem total_reconciles (steps : List ReconcileStep) :
    Operation.total (steps.map .reconcile) = steps.length := by
  induction steps with
  | nil => rfl
  | cons s ss ih =>
    rw [List.map_cons, Operation.total, ih, List.length_cons, Nat.add_comm]
    rfl

theorem refreshedFirst_refreshes (refreshed venues : List Venue) (rest : List Operation) :
    refreshedFirst refreshed (venues.map .refresh ++ rest) =
      refreshedFirst (venues.reverse ++ refreshed) rest := by
  induction venues generalizing refreshed with
  | nil => rfl
  | cons v vs ih =>
    rw [List.map_cons, List.cons_append, refreshedFirst, ih, List.reverse_cons, List.append_assoc]
    rfl

theorem refreshedFirst_reconciles {refreshed : List Venue} {steps : List ReconcileStep}
    (h : ∀ s ∈ steps, s.venue ∈ refreshed) : refreshedFirst refreshed (steps.map .reconcile) := by
  induction steps with
  | nil => rfl
  | cons s ss ih =>
    have hs : refreshed.contains s.venue := List.contains_iff_mem.2 (h s List.mem_cons_self)
    rw [List.map_cons, refreshedFirst, hs, Bool.true_and]
    exact ih fun x hx => h x (List.mem_cons_of_mem s hx)

/-- A reconcile in a batch stands behind a refresh of its venue. -/
theorem refresh_mem_of_refreshedFirst {refreshed : List Venue} {before after : List Operation}
    {step : ReconcileStep} (h : refreshedFirst refreshed (before ++ .reconcile step :: after)) :
    step.venue ∈ refreshed ∨ .refresh step.venue ∈ before := by
  induction before generalizing refreshed with
  | nil =>
    rw [List.nil_append, refreshedFirst, Bool.and_eq_true] at h
    exact .inl (List.contains_iff_mem.1 h.1)
  | cons op before ih =>
    cases op with
    | refresh v =>
      rcases ih h with hv | hbefore
      · rcases List.mem_cons.1 hv with rfl | hv
        · exact .inr List.mem_cons_self
        · exact .inl hv
      · exact .inr (List.mem_cons_of_mem _ hbefore)
    | reconcile other =>
      rw [List.cons_append, refreshedFirst, Bool.and_eq_true] at h
      exact (ih h.2).imp_right (List.mem_cons_of_mem _)
    | _ => exact (ih h).imp_right (List.mem_cons_of_mem _)

/-- An open batch that a ceiling allows, and that will refresh what it reconciles. -/
structure Open.Sound (ceiling : Nat) (b : Open) : Prop where
  fits : b.operands ≤ ceiling
  fresh : ∀ s ∈ b.steps, s.venue ∈ b.venues

theorem Open.operands_add (b : Open) (step : ReconcileStep) :
    (b.add step).operands = b.operands + b.cost step := by
  by_cases h : step.venue ∈ b.venues
  · simp [operands, add, cost, h]
    omega
  · simp [operands, add, cost, h]
    omega

theorem Open.Sound.add {ceiling : Nat} {b : Open} {step : ReconcileStep} (h : b.Sound ceiling)
    (hfits : b.operands + b.cost step ≤ ceiling) : (b.add step).Sound ceiling := by
  have hvenue : step.venue ∈ (b.add step).venues := by
    by_cases hknown : step.venue ∈ b.venues <;> simp [Open.add, hknown]
  have hkept : ∀ v ∈ b.venues, v ∈ (b.add step).venues := by
    intro v hv
    by_cases hknown : step.venue ∈ b.venues <;> simp [Open.add, hknown, hv]
  refine ⟨by rwa [operands_add], fun s hs => ?_⟩
  rcases List.mem_append.1 hs with hs | hs
  · exact hkept _ (h.fresh s hs)
  · rwa [List.mem_singleton.1 hs]

theorem Open.Sound.close {ceiling : Nat} {b : Open} (h : b.Sound ceiling) :
    b.close.Sound ceiling := by
  constructor
  · rw [Batch.operands, Open.close, total_append, total_refreshes, total_reconciles]
    exact h.fits
  · rw [isRefreshedFirst, Open.close, refreshedFirst_refreshes]
    exact refreshedFirst_reconciles fun s hs => by simpa using h.fresh s hs

theorem sound_of_pack {ceiling : Nat} {refreshable : List Venue} {steps : List ReconcileStep}
    {batches : List Batch} (h : pack ceiling refreshable steps = .ok batches) :
    ∀ batch ∈ batches, batch.Sound ceiling := by
  intro batch hbatch
  have hempty : Open.empty.Sound ceiling := ⟨Nat.zero_le _, by simp [Open.empty]⟩
  unfold pack at h
  split at h
  · cases h
  · rename_i hceiling
    cases steps with
    | nil =>
      cases h
      cases hbatch
    | cons first rest =>
      -- a step that opens a batch brings its refresh, and the ceiling was checked for both
      have htwo : 2 ≤ ceiling :=
        Nat.le_of_not_lt fun hless => hceiling ⟨List.cons_ne_nil _ _, hless⟩
      have hopen : ∀ step : ReconcileStep, (Open.empty.add step).Sound ceiling :=
        fun step => hempty.add (by simpa [Open.operands, Open.empty, Open.cost] using htwo)
      obtain ⟨b, hb, rfl⟩ := closed_of_packFrom (fun step _ => hopen step)
        (fun _ _ hb _ hfits => hb.add hfits) hempty h hbatch
      exact hb.close

/-! ## Operations behind a refresh -/

theorem flatten_pieces {α : Type} (size : Nat) (items : List α) :
    (pieces size items).flatten = items := by
  fun_induction pieces size items with
  | case1 => rfl
  | case2 x xs ih => simp [ih]

/-- A batch of refreshes that goes ahead of the batch it did not fit into. -/
def refreshing (venues : List Venue) : Batch := ⟨.refresh, venues.map .refresh, []⟩

theorem length_le_of_mem_pieces {α : Type} {size : Nat} (hsize : 0 < size) {items piece : List α}
    (h : piece ∈ pieces size items) : piece.length ≤ size := by
  fun_induction pieces size items with
  | case1 => cases h
  | case2 x xs ih =>
    rcases List.mem_cons.1 h with rfl | h
    · simp only [List.length_cons, List.length_take]
      omega
    · exact ih h

theorem behindRefresh_eq_ok {ceiling : Nat} {kind : BatchKind} {venues : List Venue}
    {operations : List Operation} {batches : List Batch}
    (h : behindRefresh ceiling kind venues operations = .ok batches) :
    ∃ ahead beside, venues = ahead ++ beside ∧
      batches = (pieces ceiling ahead).map refreshing ++
        [⟨kind, preamble beside ++ operations, []⟩] ∧
      0 < ceiling ∧ Sound ceiling ⟨kind, preamble beside ++ operations, []⟩ := by
  simp only [behindRefresh] at h
  split at h
  · cases h
  rename_i htail
  generalize venues.length - min venues.length (ceiling - (1 + Operation.total operations)) = n at h
  obtain ⟨last, hlast, hbatches⟩ := Except.bind_eq_ok_iff.1 h
  obtain ⟨rfl, hfits, hfresh⟩ := single_eq_ok hlast
  cases hbatches
  exact ⟨venues.take n, venues.drop n, (List.take_append_drop n venues).symm, rfl, by omega,
    ⟨hfits, hfresh⟩⟩

theorem sound_refreshing {ceiling : Nat} {venues : List Venue} (h : venues.length ≤ ceiling) :
    (refreshing venues).Sound ceiling := by
  constructor
  · rw [operands, refreshing, total_refreshes]
    exact h
  · have hfresh := refreshedFirst_refreshes [] venues []
    rw [List.append_nil] at hfresh
    rw [isRefreshedFirst, refreshing, hfresh]
    rfl

/-- Every batch behind a refresh, and every batch of refreshes ahead of it, is sound. -/
theorem sound_of_behindRefresh {ceiling : Nat} {kind : BatchKind} {venues : List Venue}
    {operations : List Operation} {batches : List Batch}
    (h : behindRefresh ceiling kind venues operations = .ok batches) :
    ∀ batch ∈ batches, batch.Sound ceiling := by
  obtain ⟨ahead, beside, rfl, rfl, hpos, hlast⟩ := behindRefresh_eq_ok h
  intro batch hbatch
  rcases List.mem_append.1 hbatch with hbatch | hbatch
  · obtain ⟨piece, hpiece, rfl⟩ := List.mem_map.1 hbatch
    exact sound_refreshing (length_le_of_mem_pieces hpos hpiece)
  · rw [List.mem_singleton.1 hbatch]
    exact hlast

theorem operations_refreshing (size : Nat) (venues : List Venue) :
    ((pieces size venues).map refreshing).flatMap (·.operations) = venues.map .refresh := by
  calc ((pieces size venues).map refreshing).flatMap (·.operations)
      = (pieces size venues).flatMap (·.map .refresh) := by
        rw [List.flatMap_map]
        rfl
    _ = (pieces size venues).flatten.map .refresh := by
        rw [List.map_flatten, List.flatMap_def]
    _ = venues.map .refresh := by rw [flatten_pieces]

/-- Batches of refreshes go ahead of the one that holds the operations; between them they refresh
every venue in its turn. -/
theorem layers_of_behindRefresh {ceiling : Nat} {kind : BatchKind} {venues : List Venue}
    {operations : List Operation} {batches : List Batch}
    (h : behindRefresh ceiling kind venues operations = .ok batches) :
    ∃ leading last beside, batches = leading ++ [last] ∧
      (∀ batch ∈ leading, batch.kind = .refresh) ∧ last.kind = kind ∧
      last.operations = preamble beside ++ operations ∧
      leading.flatMap (·.operations) ++ beside.map .refresh = venues.map .refresh := by
  obtain ⟨ahead, beside, rfl, rfl, -, -⟩ := behindRefresh_eq_ok h
  refine ⟨_, _, beside, rfl, ?_, rfl, rfl, ?_⟩
  · intro batch hbatch
    obtain ⟨piece, -, rfl⟩ := List.mem_map.1 hbatch
    rfl
  · rw [operations_refreshing, List.map_append]

theorem kind_of_behindRefresh {ceiling : Nat} {kind : BatchKind} {venues : List Venue}
    {operations : List Operation} {batches : List Batch}
    (h : behindRefresh ceiling kind venues operations = .ok batches) :
    ∀ batch ∈ batches, batch.kind = .refresh ∨ batch.kind = kind := by
  obtain ⟨leading, last, -, rfl, hleading, hlast, -, -⟩ := layers_of_behindRefresh h
  intro batch hbatch
  rcases List.mem_append.1 hbatch with hbatch | hbatch
  · exact .inl (hleading batch hbatch)
  · rw [List.mem_singleton.1 hbatch]
    exact .inr hlast

/-- However they are cut into batches, every venue is refreshed in its turn, then the total is
worked out, then the operations follow. -/
theorem operations_behindRefresh {ceiling : Nat} {kind : BatchKind} {venues : List Venue}
    {operations : List Operation} {batches : List Batch}
    (h : behindRefresh ceiling kind venues operations = .ok batches) :
    batches.flatMap (·.operations) = preamble venues ++ operations := by
  obtain ⟨leading, last, beside, rfl, -, -, hlast, hrefreshes⟩ := layers_of_behindRefresh h
  rw [List.flatMap_append, List.flatMap_singleton, hlast, preamble, preamble, ← hrefreshes]
  simp only [List.append_assoc]

theorem mem_operations_of_behindRefresh {ceiling : Nat} {kind : BatchKind} {venues : List Venue}
    {operations : List Operation} {batches : List Batch}
    (h : behindRefresh ceiling kind venues operations = .ok batches) {batch : Batch}
    (hbatch : batch ∈ batches) {op : Operation} (hop : op ∈ batch.operations) :
    (∃ v ∈ venues, op = .refresh v) ∨ op = .consolidate ∨ op ∈ operations := by
  have hmem : op ∈ preamble venues ++ operations := by
    rw [← operations_behindRefresh h]
    exact List.mem_flatMap.2 ⟨batch, hbatch, hop⟩
  simp only [preamble, List.mem_append, List.mem_map, List.mem_singleton] at hmem
  rcases hmem with (⟨v, hv, rfl⟩ | rfl) | hop
  · exact .inl ⟨v, hv, rfl⟩
  · exact .inr (.inl rfl)
  · exact .inr (.inr hop)

/-! ## What can be packed -/

-- Where the ceiling falls decides how the steps are cut, never whether they can be packed.
theorem packFrom_verdict (ceiling : Nat) (refreshable : List Venue) (b : Open)
    (steps : List ReconcileStep) :
    ((∀ s ∈ steps, s.venue ∈ refreshable) ∧
      ∃ batches, packFrom ceiling refreshable b steps = .ok batches) ∨
    ∃ s ∈ steps, s.venue ∉ refreshable ∧
      packFrom ceiling refreshable b steps = .error (.venueDisabled s.venue) := by
  induction steps generalizing b with
  | nil => exact .inl ⟨by simp, _, rfl⟩
  | cons step rest ih =>
    unfold packFrom
    by_cases hstep : step.venue ∈ refreshable
    · rw [if_neg (not_not_intro hstep)]
      split
      · rcases ih (b.add step) with ⟨hall, hok⟩ | ⟨s, hs, hnot, hfailed⟩
        · exact .inl ⟨by simpa using ⟨hstep, hall⟩, hok⟩
        · exact .inr ⟨s, List.mem_cons_of_mem _ hs, hnot, hfailed⟩
      · rcases ih (Open.empty.add step) with ⟨hall, others, hok⟩ | ⟨s, hs, hnot, hfailed⟩
        · exact .inl ⟨by simpa using ⟨hstep, hall⟩, b.close :: others, by rw [hok]; rfl⟩
        · exact .inr ⟨s, List.mem_cons_of_mem _ hs, hnot, by rw [hfailed]; rfl⟩
    · rw [if_pos hstep]
      exact .inr ⟨step, List.mem_cons_self, hstep, rfl⟩

/-- Where a reconcile fits at all, steps can be packed unless one of them is of a venue that cannot
be refreshed. -/
theorem pack_verdict {ceiling : Nat} (hceiling : reconcileOperands ≤ ceiling)
    (refreshable : List Venue) (steps : List ReconcileStep) :
    ((∀ s ∈ steps, s.venue ∈ refreshable) ∧
      ∃ batches, pack ceiling refreshable steps = .ok batches) ∨
    ∃ s ∈ steps, s.venue ∉ refreshable ∧
      pack ceiling refreshable steps = .error (.venueDisabled s.venue) := by
  unfold pack
  rw [if_neg fun hsmall => Nat.not_lt.2 hceiling hsmall.2]
  exact packFrom_verdict ceiling refreshable .empty steps

theorem total_preamble (venues : List Venue) :
    Operation.total (preamble venues) = venues.length + 1 := by
  rw [preamble, total_append, total_refreshes]
  rfl

theorem single_preamble {ceiling : Nat} {beside : List Venue} {operations : List Operation}
    (hfits : beside.length + 1 + Operation.total operations ≤ ceiling)
    (hfresh : ∀ refreshed, refreshedFirst refreshed operations) (kind : BatchKind) :
    single ceiling ⟨kind, preamble beside ++ operations, []⟩ =
      .ok ⟨kind, preamble beside ++ operations, []⟩ := by
  have hfirst : isRefreshedFirst ⟨kind, preamble beside ++ operations, []⟩ := by
    rw [isRefreshedFirst, preamble, List.append_assoc, refreshedFirst_refreshes]
    exact hfresh _
  have hoperands : ¬ ceiling < operands ⟨kind, preamble beside ++ operations, []⟩ := by
    rw [operands, total_append, total_preamble]
    omega
  rw [single, if_neg hoperands, if_pos hfirst]

/-- Operations that reconcile nothing can be laid out behind a refresh if they fit beside the vault's
total. -/
theorem exists_behindRefresh {ceiling : Nat} (operations : List Operation)
    (hfits : 1 + Operation.total operations ≤ ceiling)
    (hfresh : ∀ refreshed, refreshedFirst refreshed operations) (kind : BatchKind)
    (venues : List Venue) :
    ∃ batches, behindRefresh ceiling kind venues operations = .ok batches := by
  simp only [behindRefresh, if_neg (Nat.not_lt.2 hfits)]
  rw [single_preamble (by rw [List.length_drop]; omega) hfresh]
  exact ⟨_, rfl⟩

/-- Where there is room for all, no refresh goes ahead. -/
theorem behindRefresh_of_room {ceiling : Nat} {venues : List Venue} {operations : List Operation}
    (hfits : venues.length + 1 + Operation.total operations ≤ ceiling)
    (hfresh : ∀ refreshed, refreshedFirst refreshed operations) (kind : BatchKind) :
    behindRefresh ceiling kind venues operations =
      .ok [⟨kind, preamble venues ++ operations, []⟩] := by
  have hahead : venues.length - min venues.length (ceiling - (1 + Operation.total operations)) =
      0 := by
    omega
  have htail : ¬ ceiling < 1 + Operation.total operations := by omega
  simp only [behindRefresh, if_neg htail, hahead, List.drop_zero, List.take_zero]
  rw [single_preamble hfits hfresh, pieces]
  rfl

end Batch

end YieldVault
