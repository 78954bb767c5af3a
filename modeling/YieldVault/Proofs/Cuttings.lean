-- The laws of cutting: where the batches of a plan begin and end. Reconciles are cut
-- into as few batches as the ceiling allows, each of which refreshes its own venues
-- once; refreshes ahead of other operations are cut only where they do not fit.
import Mathlib.Data.Finset.Card
import YieldVault.Proofs.Packing

namespace YieldVault

namespace Batch

/-! ## Steps in one batch -/

/-- The venues of some steps, each once, in the order in which they first come up. -/
def venuesOf (steps : List ReconcileStep) : List Venue := (steps.map (·.venue)).eraseDups

/-- What some steps take in one batch: a refresh for each of their venues, and themselves. -/
def weight (steps : List ReconcileStep) : Nat :=
  (steps.map (·.venue)).toFinset.card + steps.length

/-- A batch that refreshes what it reconciles, and does nothing else. -/
structure Exact (ceiling : Nat) (batch : Batch) : Prop where
  kind : batch.kind = .reconcile
  signers : batch.signers = []
  ne_nil : batch.reconciles ≠ []
  nodup : batch.refreshes.Nodup
  operations : batch.operations =
    (venuesOf batch.reconciles).map .refresh ++ batch.reconciles.map .reconcile
  fits : batch.operands ≤ ceiling

theorem mem_venuesOf {steps : List ReconcileStep} {v : Venue} :
    v ∈ venuesOf steps ↔ ∃ s ∈ steps, s.venue = v := by
  unfold venuesOf
  rw [List.mem_eraseDups, List.mem_map]

theorem venuesOf_append_singleton (steps : List ReconcileStep) (step : ReconcileStep) :
    venuesOf (steps ++ [step]) =
      if step.venue ∈ venuesOf steps then venuesOf steps else venuesOf steps ++ [step.venue] := by
  have hknown : step.venue ∈ venuesOf steps ↔ ∃ s ∈ steps, s.venue = step.venue := mem_venuesOf
  unfold venuesOf at *
  rw [List.map_append, List.eraseDups_append]
  by_cases h : ∃ s ∈ steps, s.venue = step.venue
  · rw [if_pos (hknown.2 h)]
    simp [List.removeAll, h]
  · rw [if_neg (mt hknown.1 h)]
    simp [List.removeAll, h, List.eraseDups_cons]

theorem nodup_venuesOf (steps : List ReconcileStep) : (venuesOf steps).Nodup := by
  induction steps using List.reverseRecOn with
  | nil => exact List.nodup_nil
  | append_singleton steps step ih =>
    rw [venuesOf_append_singleton]
    split
    · exact ih
    · rename_i hnew
      simpa using ih.concat hnew

theorem weight_eq (steps : List ReconcileStep) :
    weight steps = (venuesOf steps).length + steps.length := by
  have hvenues : (steps.map (·.venue)).toFinset = (venuesOf steps).toFinset := by
    ext v
    simp [mem_venuesOf]
  rw [weight, hvenues, List.toFinset_card_of_nodup (nodup_venuesOf steps)]

/-- Fewer steps in a row take no more than all of them. -/
theorem weight_mono {steps run : List ReconcileStep} (h : steps <:+: run) :
    weight steps ≤ weight run := by
  have hvenues : (steps.map (·.venue)).toFinset ⊆ (run.map (·.venue)).toFinset := by
    intro v hv
    rw [List.mem_toFinset] at hv ⊢
    exact List.map_subset _ h.subset hv
  have hcard := Finset.card_le_card hvenues
  have hlength := h.length_le
  unfold weight
  omega

/-! ## Open batches -/

namespace Open

/-- An open batch that will refresh the venues of its steps, each once. -/
def Tight (b : Open) : Prop := b.venues = venuesOf b.steps

variable {b : Open}

theorem tight_empty : empty.Tight := rfl

theorem Tight.add (h : b.Tight) (step : ReconcileStep) : (b.add step).Tight := by
  unfold Tight at *
  by_cases hknown : step.venue ∈ b.venues
  · simp [Open.add, venuesOf_append_singleton, ← h, hknown]
  · simp [Open.add, venuesOf_append_singleton, ← h, hknown]

theorem Tight.operands_eq (h : b.Tight) : b.operands = weight b.steps := by
  rw [weight_eq, ← h, operands]

@[simp] theorem steps_add (b : Open) (step : ReconcileStep) :
    (b.add step).steps = b.steps ++ [step] := rfl

@[simp] theorem operands_close (b : Open) : b.close.operands = b.operands := by
  rw [Batch.operands, close, total_append, total_refreshes, total_reconciles]
  rfl

@[simp] theorem refreshes_close (b : Open) : b.close.refreshes = b.venues := by
  simp [Batch.refreshes, close, List.filterMap_map]

/-- A step on its own takes itself and its refresh. -/
theorem operands_first (step : ReconcileStep) :
    (empty.add step).operands = reconcileOperands := by
  simp [operands, Open.add, empty, reconcileOperands]

/-- An open batch that could be closed as it is. -/
structure Closable (ceiling : Nat) (b : Open) : Prop where
  tight : b.Tight
  ne_nil : b.steps ≠ []
  fits : b.operands ≤ ceiling

variable {ceiling : Nat}

theorem closable_first (hceiling : reconcileOperands ≤ ceiling) (step : ReconcileStep) :
    (empty.add step).Closable ceiling where
  tight := tight_empty.add step
  ne_nil := by simp
  fits := by rwa [operands_first]

theorem Closable.add {step : ReconcileStep} (h : b.Closable ceiling)
    (hfits : b.operands + b.cost step ≤ ceiling) : (b.add step).Closable ceiling where
  tight := h.tight.add step
  ne_nil := by simp
  fits := by rwa [operands_add]

theorem Closable.exact_close (h : b.Closable ceiling) : b.close.Exact ceiling where
  kind := rfl
  signers := rfl
  ne_nil := by simpa using h.ne_nil
  nodup := by
    rw [refreshes_close, h.tight]
    exact nodup_venuesOf b.steps
  operations := by
    rw [reconciles_close, ← h.tight]
    rfl
  fits := by simpa using h.fits

end Open

theorem Exact.weight_le {ceiling : Nat} {batch : Batch} (h : batch.Exact ceiling) :
    weight batch.reconciles ≤ ceiling := by
  have hfits := h.fits
  rwa [operands, h.operations, total_append, total_refreshes, total_reconciles, ← weight_eq]
    at hfits

/-! ## Packed steps -/

section

variable {ceiling : Nat} {refreshable : List Venue} {steps : List ReconcileStep}
  {batches : List Batch}

/-- A step joins the open batch, or closes it and opens the next one. -/
theorem packFrom_cons_eq_ok {b : Open} {step : ReconcileStep}
    (h : packFrom ceiling refreshable b (step :: steps) = .ok batches) :
    (b.operands + b.cost step ≤ ceiling ∧
      packFrom ceiling refreshable (b.add step) steps = .ok batches) ∨
    (ceiling < b.operands + b.cost step ∧ ∃ others, batches = b.close :: others ∧
      packFrom ceiling refreshable (Open.empty.add step) steps = .ok others) := by
  unfold packFrom at h
  split at h
  · cases h
  split at h
  · rename_i hfits
    exact .inl ⟨hfits, h⟩
  · rename_i hfull
    obtain ⟨others, hothers, rfl⟩ := Except.map_eq_ok_iff.1 h
    exact .inr ⟨Nat.lt_of_not_le hfull, others, rfl, hothers⟩

/-- A packing has no batches, or its first step opens the first. -/
theorem pack_eq_ok (h : pack ceiling refreshable steps = .ok batches) :
    (steps = [] ∧ batches = []) ∨
    ∃ first rest, steps = first :: rest ∧ reconcileOperands ≤ ceiling ∧
      packFrom ceiling refreshable (Open.empty.add first) rest = .ok batches := by
  unfold pack at h
  split at h
  · cases h
  rename_i hceiling
  cases steps with
  | nil =>
    cases h
    exact .inl ⟨rfl, rfl⟩
  | cons first rest =>
    have hroom : reconcileOperands ≤ ceiling := by simpa using hceiling
    rcases packFrom_cons_eq_ok h with ⟨-, h⟩ | ⟨hfull, -⟩
    · exact .inr ⟨first, rest, rfl, hroom, h⟩
    · rw [← Open.operands_add, Open.operands_first] at hfull
      omega

theorem exact_of_pack (h : pack ceiling refreshable steps = .ok batches) :
    ∀ batch ∈ batches, batch.Exact ceiling := by
  intro batch hbatch
  rcases pack_eq_ok h with ⟨-, rfl⟩ | ⟨first, rest, -, hceiling, h⟩
  · cases hbatch
  obtain ⟨b, hb, rfl⟩ := closed_of_packFrom (fun step _ => Open.closable_first hceiling step)
    (fun b step hb _ hfits => hb.add hfits) (Open.closable_first hceiling first) h hbatch
  exact hb.exact_close

/-- The first step of a venue that cannot be refreshed decides what is told. -/
theorem packFrom_refused {before after : List ReconcileStep} {step : ReconcileStep}
    (hbefore : ∀ s ∈ before, s.venue ∈ refreshable) (hstep : step.venue ∉ refreshable)
    (b : Open) : packFrom ceiling refreshable b (before ++ step :: after) =
      .error (.venueDisabled step.venue) := by
  induction before generalizing b with
  | nil => rw [List.nil_append, packFrom, if_pos hstep]
  | cons first rest ih =>
    have hfirst : first.venue ∈ refreshable := hbefore first List.mem_cons_self
    have hrest : ∀ s ∈ rest, s.venue ∈ refreshable :=
      fun s hs => hbefore s (List.mem_cons_of_mem first hs)
    rw [List.cons_append, packFrom, if_neg (not_not_intro hfirst)]
    split
    · exact ih hrest _
    · rw [ih hrest]
      rfl

end

/-- Steps are packed as they come. They are refused if the ceiling is too low for one reconcile and
its refresh, or else at the first step of a venue that cannot be refreshed; otherwise every batch
does what it has to and nothing else, and between them the batches hold the steps in order. -/
theorem a_packing_is_exact_and_in_order (ceiling : Nat) (refreshable : List Venue)
    (steps : List ReconcileStep) :
    (pack ceiling refreshable steps = .error (.batchTooSmall 2 ceiling) ↔
      steps ≠ [] ∧ ceiling < 2) ∧
    (steps = [] ∨ 2 ≤ ceiling →
      (∀ before step after, steps = before ++ step :: after →
        (∀ s ∈ before, s.venue ∈ refreshable) → step.venue ∉ refreshable →
        pack ceiling refreshable steps = .error (.venueDisabled step.venue)) ∧
      ((∀ s ∈ steps, s.venue ∈ refreshable) →
        ∃ batches, pack ceiling refreshable steps = .ok batches ∧
          (∀ batch ∈ batches, batch.Exact ceiling) ∧ batches.flatMap reconciles = steps)) := by
  by_cases hsmall : steps ≠ [] ∧ ceiling < 2
  · refine ⟨⟨fun _ => hsmall, fun _ => ?_⟩, ?_⟩
    · unfold pack
      exact if_pos hsmall
    · rintro (hnone | hroom)
      · exact absurd hnone hsmall.1
      · exact absurd hsmall.2 (Nat.not_lt.2 hroom)
  have hpack : pack ceiling refreshable steps = packFrom ceiling refreshable .empty steps := by
    unfold pack
    exact if_neg hsmall
  refine ⟨⟨fun h => ?_, fun h => absurd h hsmall⟩, fun _ => ⟨?_, ?_⟩⟩
  · rcases packFrom_verdict ceiling refreshable .empty steps with
      ⟨-, batches, hok⟩ | ⟨s, -, -, hfailed⟩
    · rw [hpack, hok] at h
      cases h
    · rw [hpack, hfailed] at h
      cases h
  · rintro before step after rfl hbefore hstep
    rw [hpack]
    exact packFrom_refused hbefore hstep .empty
  · intro hall
    rcases packFrom_verdict ceiling refreshable .empty steps with
      ⟨-, batches, hok⟩ | ⟨s, hs, hnot, -⟩
    · rw [← hpack] at hok
      exact ⟨batches, hok, exact_of_pack hok, reconciles_pack hok⟩
    · exact absurd (hall s hs) hnot

/-! ## Other cuttings -/

/-- A way to cut steps into runs that each fit into one batch. -/
structure Cutting (ceiling : Nat) (steps : List ReconcileStep) (runs : List (List ReconcileStep)) :
    Prop where
  flatten : runs.flatten = steps
  ne_nil : ∀ run ∈ runs, run ≠ []
  fits : ∀ run ∈ runs, weight run ≤ ceiling

/-- What of a cutting is still ahead once some steps of its current run are taken: the rest of that
run, then the runs after it. -/
structure Ahead (ceiling : Nat) (steps taken rest : List ReconcileStep)
    (runs : List (List ReconcileStep)) : Prop where
  fits : weight (taken ++ rest) ≤ ceiling
  cutting : ∃ later, steps = rest ++ later ∧ Cutting ceiling later runs

section

variable {ceiling : Nat} {refreshable : List Venue} {steps taken rest : List ReconcileStep}
  {step : ReconcileStep} {runs : List (List ReconcileStep)} {batches : List Batch}

/-- The first step of a cutting opens its first run. -/
theorem Cutting.opens (h : Cutting ceiling (step :: steps) runs) :
    ∃ rest others, runs = (step :: rest) :: others ∧ Ahead ceiling steps [step] rest others := by
  obtain ⟨hflatten, hsome, hfits⟩ := h
  cases runs with
  | nil => cases hflatten
  | cons run others =>
    cases run with
    | nil => exact absurd rfl (hsome [] List.mem_cons_self)
    | cons first rest =>
      rw [List.flatten_cons, List.cons_append] at hflatten
      cases hflatten
      refine ⟨rest, others, rfl, hfits _ List.mem_cons_self, others.flatten, rfl, rfl, ?_, ?_⟩
      · exact fun run hrun => hsome run (List.mem_cons_of_mem _ hrun)
      · exact fun run hrun => hfits run (List.mem_cons_of_mem _ hrun)

/-- The next step belongs to the current run, or opens the next one. -/
theorem Ahead.next (h : Ahead ceiling (step :: steps) taken rest runs) :
    (∃ rest, Ahead ceiling steps (taken ++ [step]) rest runs) ∨
    ∃ rest others, runs.length = others.length + 1 ∧ Ahead ceiling steps [step] rest others := by
  obtain ⟨hfits, later, hsteps, hlater⟩ := h
  cases rest with
  | nil =>
    rw [List.nil_append] at hsteps
    subst hsteps
    obtain ⟨rest, others, rfl, hahead⟩ := hlater.opens
    exact .inr ⟨rest, others, rfl, hahead⟩
  | cons first rest =>
    cases hsteps
    exact .inl ⟨rest, by simpa using hfits, later, rfl, hlater⟩

/-- A packing is never more than a batch behind another cutting, and not behind at all while its
open batch began no sooner than the other's current run. -/
theorem length_le_of_packFrom {b : Open} (hb : b.Tight)
    (h : packFrom ceiling refreshable b steps = .ok batches)
    (hahead : Ahead ceiling steps taken rest runs) :
    batches.length ≤ runs.length + 2 ∧ (b.steps <:+ taken → batches.length ≤ runs.length + 1) := by
  induction steps generalizing b batches taken rest runs with
  | nil =>
    have hlength : batches.length ≤ 1 := by
      cases h
      split <;> simp
    omega
  | cons step steps ih =>
    -- here and there the step either joins what is open or opens the next
    rcases packFrom_cons_eq_ok h with ⟨-, h⟩ | ⟨hfull, others, rfl, hothers⟩
    · rcases hahead.next with ⟨rest', hahead'⟩ | ⟨rest', others, hruns, hahead'⟩
      · obtain ⟨hle, hlead⟩ := ih (hb.add step) h hahead'
        refine ⟨hle, fun hsuffix => hlead ?_⟩
        obtain ⟨earlier, rfl⟩ := hsuffix
        exact ⟨earlier, by simp⟩
      · obtain ⟨hle, hlead⟩ := ih (hb.add step) h hahead'
        omega
    · rcases hahead.next with ⟨rest', hahead'⟩ | ⟨rest', later, hruns, hahead'⟩
      · obtain ⟨hle, hlead⟩ := ih (Open.tight_empty.add step) hothers hahead'
        have hnew : others.length ≤ runs.length + 1 := hlead (by simp [Open.empty])
        refine ⟨by simp; omega, fun hsuffix => absurd hfull (Nat.not_lt.2 ?_)⟩
        -- the step joins the other run, which holds all that is in the open batch
        have hinfix : (b.add step).steps <:+: taken ++ [step] ++ rest' := by
          obtain ⟨earlier, rfl⟩ := hsuffix
          exact ⟨earlier, rest', by simp⟩
        rw [← Open.operands_add, (hb.add step).operands_eq]
        exact (weight_mono hinfix).trans hahead'.fits
      · obtain ⟨hle, hlead⟩ := ih (Open.tight_empty.add step) hothers hahead'
        have hnew := hlead (by simp [Open.empty])
        simp
        omega

/-- A packing goes on from the open batch. -/
theorem exists_cons_of_packFrom {b : Open} (hsome : b.steps ≠ [])
    (h : packFrom ceiling refreshable b steps = .ok batches) :
    ∃ first others, batches = first :: others ∧ b.steps <+: first.reconciles := by
  induction steps generalizing b batches with
  | nil =>
    cases h
    exact ⟨b.close, [], by simpa using hsome, by simp⟩
  | cons step steps ih =>
    rcases packFrom_cons_eq_ok h with ⟨-, h⟩ | ⟨-, others, rfl, -⟩
    · obtain ⟨first, others, rfl, hprefix⟩ := ih (by simp) h
      exact ⟨first, others, rfl, (List.prefix_append _ _).trans hprefix⟩
    · exact ⟨b.close, others, rfl, by simp⟩

/-- A batch that has no room for the first step of the next one, with a refresh if its venue is
new. -/
def FullBefore (ceiling : Nat) (batch next : Batch) : Prop :=
  ∃ step rest, next.reconciles = step :: rest ∧
    ceiling < batch.operands + if step.venue ∈ batch.refreshes then 1 else 2

theorem full_of_packFrom {b : Open} (hsome : b.steps ≠ [])
    (h : packFrom ceiling refreshable b steps = .ok batches) :
    batches.IsChain (FullBefore ceiling) := by
  induction steps generalizing b batches with
  | nil =>
    cases h
    simp [hsome]
  | cons step steps ih =>
    rcases packFrom_cons_eq_ok h with ⟨-, h⟩ | ⟨hfull, others, rfl, hothers⟩
    · exact ih (by simp) h
    · obtain ⟨next, later, rfl, hprefix⟩ := exists_cons_of_packFrom (by simp) hothers
      have hchain : (next :: later).IsChain (FullBefore ceiling) := ih (by simp) hothers
      obtain ⟨rest, hrest⟩ := hprefix
      refine List.isChain_cons_cons.2 ⟨⟨step, rest, hrest.symm, ?_⟩, hchain⟩
      simpa [Open.cost] using hfull

theorem cutting_of_pack (h : pack ceiling refreshable steps = .ok batches) :
    Cutting ceiling steps (batches.map reconciles) where
  flatten := by rw [← List.flatMap_def, reconciles_pack h]
  ne_nil := by
    intro run hrun
    obtain ⟨batch, hbatch, rfl⟩ := List.mem_map.1 hrun
    exact (exact_of_pack h batch hbatch).ne_nil
  fits := by
    intro run hrun
    obtain ⟨batch, hbatch, rfl⟩ := List.mem_map.1 hrun
    exact (exact_of_pack h batch hbatch).weight_le

end

/-- A packing is a cutting of its steps, and none is of fewer runs; and each of its batches but the
last is full: the first step of the next one would exceed the ceiling. -/
theorem no_cutting_takes_fewer_batches {ceiling : Nat} {refreshable : List Venue}
    {steps : List ReconcileStep} {batches : List Batch}
    (h : pack ceiling refreshable steps = .ok batches) :
    Cutting ceiling steps (batches.map reconciles) ∧
    (∀ runs, Cutting ceiling steps runs → batches.length ≤ runs.length) ∧
    batches.IsChain (FullBefore ceiling) := by
  refine ⟨cutting_of_pack h, ?_⟩
  rcases pack_eq_ok h with ⟨rfl, rfl⟩ | ⟨first, rest, rfl, -, h⟩
  · simp
  refine ⟨fun runs hruns => ?_, full_of_packFrom (by simp) h⟩
  obtain ⟨rest, others, rfl, hahead⟩ := hruns.opens
  exact (length_le_of_packFrom (Open.tight_empty.add first) h hahead).2 (by simp [Open.empty])

namespace SixSteps

def steps : List ReconcileStep :=
  [⟨.solend, 1⟩, ⟨.solend, 2⟩, ⟨.port, 3⟩, ⟨.solend, 4⟩, ⟨.jet, 5⟩, ⟨.jet, 6⟩]

/-- The steps under a ceiling of four: a venue's refresh is shared while its batch is open, and
repeated in the next one. -/
def batches : List Batch :=
  [⟨.reconcile, [.refresh .solend, .reconcile ⟨.solend, 1⟩, .reconcile ⟨.solend, 2⟩], []⟩,
    ⟨.reconcile, [.refresh .port, .refresh .solend, .reconcile ⟨.port, 3⟩,
      .reconcile ⟨.solend, 4⟩], []⟩,
    ⟨.reconcile, [.refresh .jet, .reconcile ⟨.jet, 5⟩, .reconcile ⟨.jet, 6⟩], []⟩]

theorem six_steps_take_three_batches :
    pack 4 Venue.all steps = .ok batches ∧
    Cutting 4 steps (batches.map reconciles) ∧
    (∀ runs, Cutting 4 steps runs → 3 ≤ runs.length) ∧ batches.IsChain (FullBefore 4) := by
  have hpack : pack 4 Venue.all steps = .ok batches := by decide
  exact ⟨hpack, no_cutting_takes_fewer_batches hpack⟩

end SixSteps

/-! ## Operations behind a refresh -/

theorem refreshedFirst_of_no_reconcile {operations : List Operation}
    (h : ∀ step, .reconcile step ∉ operations) (refreshed : List Venue) :
    refreshedFirst refreshed operations := by
  induction operations generalizing refreshed with
  | nil => rfl
  | cons op rest ih =>
    have hrest : ∀ step, .reconcile step ∉ rest :=
      fun step hstep => h step (List.mem_cons_of_mem op hstep)
    cases op with
    | reconcile step => exact absurd List.mem_cons_self (h step)
    | _ => exact ih hrest _

/-- The refreshes that do not fit beside the vault's total and the operations go ahead. -/
theorem behindRefresh_eq {ceiling room : Nat} {operations : List Operation}
    (hroom : 1 + Operation.total operations + room = ceiling)
    (hfresh : ∀ refreshed, refreshedFirst refreshed operations) (kind : BatchKind)
    (venues : List Venue) :
    behindRefresh ceiling kind venues operations =
      .ok ((pieces ceiling (venues.take (venues.length - room))).map refreshing ++
        [⟨kind, preamble (venues.drop (venues.length - room)) ++ operations, []⟩]) := by
  have htail : ¬ ceiling < 1 + Operation.total operations := by omega
  have hahead : venues.length - min venues.length (ceiling - (1 + Operation.total operations)) =
      venues.length - room := by
    omega
  simp only [behindRefresh, if_neg htail, hahead]
  rw [single_preamble (by rw [List.length_drop]; omega) hfresh]
  rfl

theorem ne_nil_of_mem_pieces {α : Type} {size : Nat} {items piece : List α}
    (h : piece ∈ pieces size items) : piece ≠ [] := by
  fun_induction pieces size items with
  | case1 => cases h
  | case2 x xs ih =>
    rcases List.mem_cons.1 h with rfl | h
    · simp
    · exact ih h

theorem pieces_eq_nil_iff {α : Type} {size : Nat} {items : List α} :
    pieces size items = [] ↔ items = [] := by
  cases items with
  | nil => simp [pieces]
  | cons x xs => simp [pieces]

/-- Batches that refresh every venue in its turn, work out the vault's total, and go on to what they
are for. Only the last does more than refresh; others go ahead where it has no room for them, and
then it is full. -/
structure Layered (ceiling : Nat) (kind : BatchKind) (venues : List Venue)
    (operations : List Operation) (leading : List Batch) (last : Batch) : Prop where
  whole : (leading ++ [last]).flatMap (·.operations) =
    venues.map .refresh ++ .consolidate :: operations
  fits : ∀ batch ∈ leading ++ [last], 1 ≤ batch.operands ∧ batch.operands ≤ ceiling
  ahead : ∀ batch ∈ leading,
    batch.kind = .refresh ∧ ∃ vs : List Venue, batch.operations = vs.map .refresh
  kind_eq : last.kind = kind
  ends : ∃ vs : List Venue, last.operations = vs.map .refresh ++ .consolidate :: operations
  ahead_iff : leading ≠ [] ↔ ceiling < venues.length + (1 + Operation.total operations)
  filled : leading ≠ [] → last.operands = ceiling

theorem layered_of_behindRefresh {ceiling room ahead : Nat} {kind : BatchKind}
    {venues : List Venue} {operations : List Operation}
    (hroom : 1 + Operation.total operations + room = ceiling)
    (hahead : ahead + min venues.length room = venues.length)
    (h : behindRefresh ceiling kind venues operations =
      .ok ((pieces ceiling (venues.take ahead)).map refreshing ++
        [⟨kind, preamble (venues.drop ahead) ++ operations, []⟩])) :
    Layered ceiling kind venues operations
      ((pieces ceiling (venues.take ahead)).map refreshing)
      ⟨kind, preamble (venues.drop ahead) ++ operations, []⟩ := by
  have hlast : operands ⟨kind, preamble (venues.drop ahead) ++ operations, []⟩ =
      min venues.length room + (1 + Operation.total operations) := by
    rw [operands, total_append, total_preamble, List.length_drop]
    omega
  have hleading : (pieces ceiling (venues.take ahead)).map refreshing ≠ [] ↔
      ceiling < venues.length + (1 + Operation.total operations) := by
    rw [ne_eq, List.map_eq_nil_iff, pieces_eq_nil_iff, ← List.length_eq_zero_iff, List.length_take]
    omega
  constructor
  · rw [operations_behindRefresh h]
    simp [preamble]
  · intro batch hbatch
    rcases List.mem_append.1 hbatch with hbatch | hbatch
    · obtain ⟨piece, hpiece, rfl⟩ := List.mem_map.1 hbatch
      have hsome := List.length_pos_iff.2 (ne_nil_of_mem_pieces hpiece)
      have hfits := length_le_of_mem_pieces (by omega) hpiece
      rw [operands, refreshing, total_refreshes]
      exact ⟨hsome, hfits⟩
    · rw [List.mem_singleton.1 hbatch, hlast]
      omega
  · intro batch hbatch
    obtain ⟨piece, -, rfl⟩ := List.mem_map.1 hbatch
    exact ⟨rfl, piece, rfl⟩
  · rfl
  · exact ⟨venues.drop ahead, by simp [preamble]⟩
  · exact hleading
  · intro hsome
    have hfull := hleading.1 hsome
    rw [hlast]
    omega

/-- Operations that reconcile nothing are laid out behind a refresh of every venue, unless they and
the vault's total already exceed the ceiling. What is subtracted on the way is never more than what
it is taken from, and no batch is empty or above the ceiling. -/
theorem a_layout_refreshes_every_venue_once (ceiling : Nat) (kind : BatchKind)
    (venues : List Venue) {operations : List Operation}
    (hnone : ∀ step, .reconcile step ∉ operations) :
    (behindRefresh ceiling kind venues operations =
        .error (.batchTooSmall (1 + Operation.total operations) ceiling) ↔
      ceiling < 1 + Operation.total operations) ∧
    (1 + Operation.total operations ≤ ceiling →
      ∃ room ahead leading last, 0 < ceiling ∧
        1 + Operation.total operations + room = ceiling ∧
        ahead + min venues.length room = venues.length ∧
        behindRefresh ceiling kind venues operations = .ok (leading ++ [last]) ∧
        Layered ceiling kind venues operations leading last) := by
  by_cases hsmall : ceiling < 1 + Operation.total operations
  · refine ⟨⟨fun _ => hsmall, fun _ => ?_⟩, fun hfits => absurd hsmall (Nat.not_lt.2 hfits)⟩
    simp only [behindRefresh, if_pos hsmall]
  obtain ⟨room, hroom⟩ := Nat.exists_eq_add_of_le (Nat.le_of_not_lt hsmall)
  have hok := behindRefresh_eq hroom.symm (refreshedFirst_of_no_reconcile hnone) kind venues
  have hahead : venues.length - room + min venues.length room = venues.length := by omega
  refine ⟨⟨fun h => ?_, fun h => absurd h hsmall⟩, fun _ => ?_⟩
  · rw [hok] at h
    cases h
  · exact ⟨room, venues.length - room, _, _, by omega, hroom.symm, hahead, hok,
      layered_of_behindRefresh hroom.symm hahead hok⟩

/-- An operation of two instructions leaves no room for a refresh beside the vault's total. -/
theorem a_full_batch_sends_its_refreshes_ahead :
    (∀ step, .reconcile step ∉ [Operation.wrap default 5]) ∧
    1 + Operation.total [.wrap default 5] = 3 ∧
    ∃ leading last,
      behindRefresh 3 .deposit [.solend, .port, .jet, .solend] [.wrap default 5] =
        .ok (leading ++ [last]) ∧
      leading ≠ [] ∧ last.operands = 3 := by
  have hnone : ∀ step, .reconcile step ∉ [Operation.wrap default 5] := by simp
  obtain ⟨room, ahead, leading, last, -, -, -, hok, hlayered⟩ :=
    (a_layout_refreshes_every_venue_once 3 .deposit [.solend, .port, .jet, .solend] hnone).2
      (by decide)
  have hsome : leading ≠ [] := hlayered.ahead_iff.2 (by decide)
  exact ⟨hnone, rfl, leading, last, hok, hsome, hlayered.filled hsome⟩

end Batch

end YieldVault
