-- The law of rebalances: a rebalance moves exactly the venues whose simulated target
-- is not what they hold, and moves none of them before the target is committed. If
-- there are none, or one of them cannot be moved, it sends nothing at all.
import YieldVault.Proofs.Movements
import YieldVault.Proofs.Reports

namespace YieldVault

open Dialogue (Runs)

/-! ## Venues off target -/

namespace Projection

/-- The venues whose target is not what they hold, in venue order. -/
def offTarget (projection : Projection) : List Venue :=
  Venue.all.filter fun v => projection.target.value v ≠ projection.actual.value v

/-- What has to be moved into a venue. -/
def delta (projection : Projection) : Venue → Int := projection.target.delta projection.actual

end Projection

theorem AllocationSet.delta_ne_zero_iff {target actual : AllocationSet} {v : Venue} :
    target.delta actual v ≠ 0 ↔ target.value v ≠ actual.value v := by
  unfold AllocationSet.delta
  rw [ne_eq, ne_eq, ← UInt64.toNat_inj]
  omega

namespace Projection

variable {projection : Projection} {movements : List Movement}

theorem venues_movements (h : projection.target.movements projection.actual = .ok movements) :
    movements.map (·.venue) = projection.offTarget := by
  rw [(AllocationSet.movements_eq_ok_iff.1 h).2, Movement.venues_filterMap_of?]
  apply List.filter_congr
  intro v _
  simp only [AllocationSet.delta_ne_zero_iff]

theorem venues_inOrder_perm
    (h : projection.target.movements projection.actual = .ok movements) :
    ((Movement.inOrder movements).map (·.venue)).Perm projection.offTarget := by
  rw [← venues_movements h]
  exact (Movement.inOrder_perm movements).map _

theorem venues_inOrder_ascending
    (h : projection.target.movements projection.actual = .ok movements) :
    ((Movement.inOrder movements).map (·.venue)).Pairwise fun v w =>
      projection.delta v ≤ projection.delta w := by
  have hdelta : ∀ m ∈ Movement.inOrder movements, m.delta = projection.delta m.venue := by
    intro m hm
    exact (AllocationSet.mem_movements h).1 ((Movement.inOrder_perm movements).mem_iff.1 hm)
  rw [List.pairwise_map]
  apply (Movement.inOrder_ascending movements).imp_of_mem
  intro a b ha hb hab
  rwa [← hdelta a ha, ← hdelta b hb]

end Projection

/-! ## What is planned -/

theorem VaultRecord.ensureRunning_of_not_halted {record : VaultRecord} {activity : Activity}
    (h : record.account.isHalted activity = false) : record.ensureRunning [activity] = .ok () := by
  simp [VaultRecord.ensureRunning, h]

namespace Client

variable {client : Client} {weights : Option Weights} {asked : List Exchange}
  {projection : Projection} {movements : List Movement}

-- Both sides of a projection are read off one account, so they are of one mint.
theorem exists_movements_of_runs_project
    (h : Call.Runs (client.project weights) asked (.ok projection)) :
    ∃ movements, projection.target.movements projection.actual = .ok movements := by
  obtain ⟨-, -, -, -, account, -, -, -, -, -, rfl⟩ := runs_project_iff.1 h
  exact ⟨_, AllocationSet.movements_eq_ok_iff.2 ⟨rfl, rfl⟩⟩

-- Once the projection is read, what is planned is decided.
theorem runs_planRebalance (hrefreshes : client.record.account.isHalted .refreshes = false)
    (hreconciles : client.record.account.isHalted .reconciles = false)
    (hproject : Call.Runs (client.project weights) asked (.ok projection))
    (hmovements : projection.target.movements projection.actual = .ok movements) :
    Call.Runs (client.planRebalance weights) asked
      (client.rebalanceBatches weights (Movement.inOrder movements)) := by
  have hask : Call.Runs (client.project weights >>= fun projection => do
      let movements ← projection.target.movements projection.actual
      client.rebalanceBatches weights (Movement.inOrder movements)) asked
      (client.rebalanceBatches weights (Movement.inOrder movements)) := by
    apply Call.runs_bind_iff.2
    refine .inl ⟨projection, asked, [], (List.append_nil _).symm, hproject, ?_⟩
    apply Call.runs_lift_bind_iff.2
    exact .inl ⟨movements, hmovements, Call.runs_lift_iff.2 ⟨rfl, rfl⟩⟩
  unfold planRebalance
  apply Call.runs_lift_bind_iff.2
  refine .inl ⟨(), VaultRecord.ensureRunning_of_not_halted hrefreshes, ?_⟩
  apply Call.runs_lift_bind_iff.2
  exact .inl ⟨(), VaultRecord.ensureRunning_of_not_halted hreconciles, hask⟩

/-- The batches of a rebalance: those that commit the target, then those that carry it out. -/
structure Rebalances (client : Client) (weights : Option Weights) (projection : Projection)
    (commit reconciles : List Batch) : Prop where
  /-- The target is committed behind a refresh of every active venue. -/
  commits : Batch.behindRefresh client.ceiling .commit client.activeVenues [.rebalance weights] =
    .ok commit
  kind : ∀ batch ∈ reconciles, batch.kind = .reconcile
  /-- Each venue off target is reconciled once, to the committed target, in order of what has to be
  moved. -/
  once : ∃ order : List Venue, order.Perm projection.offTarget ∧
    (order.Pairwise fun v w => projection.delta v ≤ projection.delta w) ∧
    reconciles.flatMap Batch.reconciles = order.map (⟨·, 0⟩)
  nothingElse : commit.flatMap Batch.reconciles = []

theorem reconciles_commit {commit : List Batch}
    (h : Batch.behindRefresh client.ceiling .commit client.activeVenues [.rebalance weights] =
      .ok commit) : commit.flatMap Batch.reconciles = [] := by
  rw [List.flatMap_eq_nil_iff]
  intro batch hbatch
  apply List.filterMap_eq_nil_iff.2
  intro op hop
  rcases Batch.mem_operations_of_behindRefresh h hbatch hop with ⟨v, -, rfl⟩ | rfl | hop
  · rfl
  · rfl
  · rw [List.mem_singleton.1 hop]

theorem rebalances_of_pack {commit reconciles : List Batch}
    (hmovements : projection.target.movements projection.actual = .ok movements)
    (hcommit : Batch.behindRefresh client.ceiling .commit client.activeVenues
      [.rebalance weights] = .ok commit)
    (hpack : Batch.pack client.ceiling client.activeVenues
      ((Movement.inOrder movements).map .toTarget) = .ok reconciles) :
    client.Rebalances weights projection commit reconciles := by
  refine ⟨hcommit, Batch.kind_of_pack hpack, ⟨(Movement.inOrder movements).map (·.venue),
    Projection.venues_inOrder_perm hmovements, Projection.venues_inOrder_ascending hmovements, ?_⟩,
    reconciles_commit hcommit⟩
  rw [Batch.reconciles_pack hpack, List.map_map]
  rfl

variable {order : List Movement}

theorem rebalanceBatches_of_ne_nil (hsome : order ≠ []) :
    client.rebalanceBatches weights order =
      (Batch.behindRefresh client.ceiling .commit client.activeVenues [.rebalance weights] >>=
        fun commit => Batch.pack client.ceiling client.activeVenues (order.map .toTarget) >>=
          fun reconciles => .ok (commit ++ reconciles)) := by
  unfold rebalanceBatches
  rw [if_neg (by simpa using hsome)]
  rfl

-- The commit is laid out first, and takes as much room as a reconcile with its refresh.
theorem rebalanceBatches_of_small (hsome : order ≠ []) (hsmall : client.ceiling < 2) :
    client.rebalanceBatches weights order = .error (.batchTooSmall 2 client.ceiling) := by
  have hcommit : Batch.behindRefresh client.ceiling .commit client.activeVenues
      [.rebalance weights] = .error (.batchTooSmall 2 client.ceiling) := if_pos hsmall
  rw [rebalanceBatches_of_ne_nil hsome, hcommit]
  rfl

/-- Under a ceiling that leaves room for a commit, all depends on whether the venues are active. -/
theorem rebalanceBatches_verdict (weights : Option Weights) (hsome : order ≠ [])
    (hfits : 2 ≤ client.ceiling) :
    ((∀ m ∈ order, m.venue ∈ client.activeVenues) ∧
      ∃ commit reconciles,
        Batch.behindRefresh client.ceiling .commit client.activeVenues [.rebalance weights] =
          .ok commit ∧
        Batch.pack client.ceiling client.activeVenues (order.map .toTarget) = .ok reconciles ∧
        client.rebalanceBatches weights order = .ok (commit ++ reconciles)) ∨
    ∃ m ∈ order, m.venue ∉ client.activeVenues ∧
      client.rebalanceBatches weights order = .error (.venueDisabled m.venue) := by
  obtain ⟨commit, hcommit⟩ := Batch.exists_behindRefresh [.rebalance weights] hfits
    (fun _ => rfl) .commit client.activeVenues
  rw [rebalanceBatches_of_ne_nil hsome, hcommit]
  rcases Batch.pack_verdict hfits client.activeVenues (order.map .toTarget) with
    ⟨hall, reconciles, hpack⟩ | ⟨s, hs, hnot, hfailed⟩
  · refine .inl ⟨?_, commit, reconciles, rfl, hpack, by rw [hpack]; rfl⟩
    intro m hm
    exact hall (.toTarget m) (List.mem_map_of_mem hm)
  · obtain ⟨m, hm, rfl⟩ := List.mem_map.1 hs
    exact .inr ⟨m, hm, hnot, by rw [hfailed]; rfl⟩

end Client

/-! ## What is sent -/

namespace Client

variable {client after : Client} {weights : Option Weights} {asked later : List Exchange}
  {result : ExecutionResult}

/-- A rebalance goes by what was planned from the answers it got. -/
theorem runs_rebalance_cases {planned : Except Error (List Batch)}
    (hplan : Call.Runs (client.planRebalance weights) asked planned)
    (hrun : Runs (client.rebalance weights) (asked ++ later) (result, after)) :
    (∃ e, planned = .error e ∧ submissions (asked ++ later) = [] ∧ result = .error (.early e)) ∨
    ∃ batches sent handed closed, planned = .ok batches ∧ Delivered batches sent ∧
      List.Forall₂ (Sent.Reached client.encoder []) sent handed ∧ later = handed ++ closed ∧
      submissions (asked ++ later) = handed ∧
      Runs (client.finish
        (ScopedPlan.conclude (Sent.confirmations sent) (Sent.verdict 0 sent) none)) closed
        (result, after) := by
  obtain ⟨outcome, executed, closed, hsplit, hexecuted, hclosed⟩ := Dialogue.runs_bind_iff.1 hrun
  obtain ⟨planned', asked', handed, rfl, hasked, hsend⟩ := Dialogue.runs_bind_iff.1 hexecuted
  rw [List.append_assoc] at hsplit
  obtain ⟨rfl, rfl, rfl⟩ := Dialogue.runs_unique hplan hasked hsplit
  obtain ⟨hclosedquiet, -, hkept⟩ := reported_of_runs_finish hclosed
  have hsubmitted : submissions (asked ++ (handed ++ closed)) = submissions handed := by
    rw [submissions_append, submissions_append, hclosedquiet,
      (quiet_planRebalance weights).submissions_eq_nil hplan, List.nil_append, List.append_nil]
  rw [hsubmitted]
  cases planned with
  | error e =>
    obtain ⟨rfl, rfl⟩ := Dialogue.runs_done_iff.1 hsend
    exact .inl ⟨e, rfl, rfl, hkept _ rfl⟩
  | ok batches =>
    have hready : ∀ batch ∈ batches, batch.Sendable client.encoder [] := by
      intro batch hbatch
      apply (laidOut_of_runs_planRebalance hplan).sendable
      simp [ScopedPlan.planned, hbatch]
    obtain ⟨⟨verdict, p⟩, first, rest, rfl, hfirst, hrest⟩ := Dialogue.runs_bind_iff.1 hsend
    obtain ⟨sent, hdelivered, hreached, hp, rfl⟩ :=
      Batch.delivered_of_runs_sendAll hready Progress.Reflects.start hfirst
    rw [List.nil_append] at hp
    have hend : rest = [] ∧
        outcome = ScopedPlan.conclude (Sent.confirmations sent) (Sent.verdict 0 sent) none := by
      rw [← hp.confirmed]
      cases hverdict : Sent.verdict 0 sent <;>
      · simp only [List.length_nil, hverdict] at hrest
        exact Dialogue.runs_done_iff.1 hrest
    obtain ⟨rfl, rfl⟩ := hend
    rw [List.append_nil]
    exact .inr ⟨batches, sent, first, closed, rfl, hdelivered, hreached, rfl,
      submissions_of_reached hreached, hclosed⟩

end Client

namespace Client.Rebalances

variable {client : Client} {weights : Option Weights} {projection : Projection}
  {commit reconciles : List Batch}

/-- No reconcile is sent before the ledger took the batch that commits the target. -/
theorem taken_before (h : client.Rebalances weights projection commit reconciles)
    {sent : List Sent} (hsent : Delivered (commit ++ reconciles) sent) {k : Nat} {s : Sent}
    (hk : sent[k]? = some s) (hkind : s.batch.kind = .reconcile) :
    ∃ j batch signature, j < k ∧ sent[j]? = some ⟨batch, .ok signature⟩ ∧ batch.kind = .commit ∧
      commit.getLast? = some batch := by
  obtain ⟨leading, last, -, rfl, hleading, hlast, -, -⟩ := Batch.layers_of_behindRefresh h.commits
  have hplace : ∀ (j : Nat) (t : Sent), sent[j]? = some t →
      (leading ++ [last] ++ reconciles)[j]? = some t.batch := by
    intro j t hj
    have hat : (sent.map (·.batch))[j]? = some t.batch := by
      rw [List.getElem?_map, hj]
      rfl
    obtain ⟨unsent, hall⟩ := hsent.isPrefix
    rw [← hall, List.getElem?_append_left (List.getElem?_eq_some_iff.1 hat).1, hat]
  -- no batch of the commit is one of reconciles, so this one stands behind all of them
  have hbehind : leading.length < k := by
    apply Nat.lt_of_not_le
    intro hle
    have hmem : s.batch ∈ leading ++ [last] := by
      have hat := hplace k s hk
      rw [List.getElem?_append_left (by simp; omega)] at hat
      exact List.mem_of_getElem? hat
    rcases List.mem_append.1 hmem with hmem | hmem
    · rw [hleading _ hmem] at hkind
      cases hkind
    · rw [List.mem_singleton.1 hmem, hlast] at hkind
      cases hkind
  have hlong : k < sent.length := (List.getElem?_eq_some_iff.1 hk).1
  obtain ⟨batch, signature, htaken⟩ := hsent.taken_of_lt (k := leading.length) (by omega)
  have hbatch : batch = last := by
    have hat := hplace _ _ htaken
    simpa using hat.symm
  exact ⟨leading.length, last, signature, hbehind, hbatch ▸ htaken, hlast, by simp⟩

end Client.Rebalances

/-! ## The law -/

/-- Where nothing is off target a rebalance sends nothing, and comes to nothing confirmed unless the
vault cannot be read anew. Otherwise it needs room for two instructions, and every venue off target
to be active; where either is missing it says so, and sends nothing. Else it plans to commit the
target and to reconcile each venue off target once, and sends no reconcile before the ledger took
the commit. -/
theorem a_rebalance_moves_what_is_off_target {client after : Client} {weights : Option Weights}
    {asked later : List Exchange} {projection : Projection} {result : ExecutionResult}
    (hrefreshes : client.record.account.isHalted .refreshes = false)
    (hreconciles : client.record.account.isHalted .reconciles = false)
    (hproject : Call.Runs (client.project weights) asked (.ok projection))
    (hrun : Runs (client.rebalance weights) (asked ++ later) (result, after)) :
    (projection.offTarget = [] →
      submissions (asked ++ later) = [] ∧
      ∃ reloaded, Runs client.reload later (reloaded, after) ∧
        (reloaded = .ok () → result = .ok [])) ∧
    (projection.offTarget ≠ [] → client.ceiling < 2 →
      submissions (asked ++ later) = [] ∧
      result = .error (.early (.batchTooSmall 2 client.ceiling))) ∧
    (2 ≤ client.ceiling → (∃ v ∈ projection.offTarget, v ∉ client.activeVenues) →
      submissions (asked ++ later) = [] ∧
      ∃ v ∈ projection.offTarget, v ∉ client.activeVenues ∧
        result = .error (.early (.venueDisabled v))) ∧
    (projection.offTarget ≠ [] → 2 ≤ client.ceiling →
      (∀ v ∈ projection.offTarget, v ∈ client.activeVenues) →
      ∃ commit reconciles sent, client.Rebalances weights projection commit reconciles ∧
        Call.Runs (client.planRebalance weights) asked (.ok (commit ++ reconciles)) ∧
        Delivered (commit ++ reconciles) sent ∧
        List.Forall₂ (Sent.Reached client.encoder []) sent (submissions (asked ++ later)) ∧
        ∀ (k : Nat) (s : Sent), sent[k]? = some s → s.batch.kind = .reconcile →
          ∃ j batch signature, j < k ∧ sent[j]? = some ⟨batch, .ok signature⟩ ∧
            batch.kind = .commit ∧ commit.getLast? = some batch) := by
  obtain ⟨movements, hmovements⟩ := Client.exists_movements_of_runs_project hproject
  have horder := Projection.venues_inOrder_perm hmovements
  have hvenue : ∀ v, v ∈ projection.offTarget ↔
      ∃ m ∈ Movement.inOrder movements, m.venue = v := by
    intro v
    rw [← horder.mem_iff, List.mem_map]
  have hsome : projection.offTarget ≠ [] → Movement.inOrder movements ≠ [] := by
    intro hsome hnone
    rw [hnone] at horder
    exact hsome horder.symm.eq_nil
  have hplan := Client.runs_planRebalance hrefreshes hreconciles hproject hmovements
  refine ⟨fun hnone => ?_, fun hoff hsmall => ?_, fun hfits hlost => ?_, fun hoff hfits hall => ?_⟩
  · -- without movements the plan is of no batches, and only the reload is left
    rw [hnone] at horder
    rw [List.map_eq_nil_iff.1 horder.eq_nil] at hplan
    rcases Client.runs_rebalance_cases hplan hrun with
      ⟨e, ⟨⟩, -⟩ | ⟨_, sent, handed, closed, ⟨⟩, hdelivered, hreached, rfl, hsubmitted, hclosed⟩
    cases hdelivered
    cases hreached
    obtain ⟨reloaded, hreload, rfl⟩ := Client.runs_reload_of_finish hclosed
    refine ⟨hsubmitted, reloaded, hreload, ?_⟩
    rintro rfl
    rfl
  · rw [Client.rebalanceBatches_of_small (hsome hoff) hsmall] at hplan
    rcases Client.runs_rebalance_cases hplan hrun with ⟨e, ⟨⟩, hsilent, hresult⟩ | ⟨_, _, _, _, ⟨⟩, -⟩
    exact ⟨hsilent, hresult⟩
  · obtain ⟨v, hv, hlost⟩ := hlost
    rcases Client.rebalanceBatches_verdict weights (hsome (List.ne_nil_of_mem hv))
      hfits with ⟨hall, -⟩ | ⟨m, hm, hnot, he⟩
    · obtain ⟨m, hm, rfl⟩ := (hvenue v).1 hv
      exact absurd (hall m hm) hlost
    · rw [he] at hplan
      rcases Client.runs_rebalance_cases hplan hrun with
        ⟨e, ⟨⟩, hsilent, hresult⟩ | ⟨_, _, _, _, ⟨⟩, -⟩
      exact ⟨hsilent, m.venue, (hvenue m.venue).2 ⟨m, hm, rfl⟩, hnot, hresult⟩
  · rcases Client.rebalanceBatches_verdict weights (hsome hoff) hfits with
      ⟨-, commit, reconciles, hcommit, hpack, hbatches⟩ | ⟨m, hm, hnot, -⟩
    · have hrebalances := Client.rebalances_of_pack hmovements hcommit hpack
      rw [hbatches] at hplan
      rcases Client.runs_rebalance_cases hplan hrun with
        ⟨e, ⟨⟩, -⟩ | ⟨_, sent, handed, closed, ⟨⟩, hdelivered, hreached, rfl, hsubmitted, -⟩
      refine ⟨commit, reconciles, sent, hrebalances, hplan, hdelivered, ?_, ?_⟩
      · rwa [hsubmitted]
      · intro k s hk hkind
        exact hrebalances.taken_before hdelivered hk hkind
    · exact absurd (hall m.venue ((hvenue m.venue).2 ⟨m, hm, rfl⟩)) hnot

namespace OneVenue

/-- The vault as a rebalance would leave it: of 1000 units at the venue 400 are to stay. -/
def lowered : VaultAccount := { account 1000 with target := ⟨.at 400 0, .at 0 0, .at 0 0⟩ }

def loweredProjection : Projection := ⟨lowered.targetSet, lowered.actualSet, 1000⟩

def simulating : List Exchange :=
  [⟨.simulate [handle.refresh client.encoder.keys, .consolidate client.encoder.keys,
      .rebalance client.encoder.keys client.encoder.reserves none] [default],
    .ok ⟨none, [], [some lowered.encode]⟩⟩]

/-- The ledger takes the commit, and refuses the reconcile; then the vault cannot be read. -/
def rebalancing : List Exchange :=
  [⟨.submit [handle.refresh client.encoder.keys, .consolidate client.encoder.keys,
      .rebalance client.encoder.keys client.encoder.reserves none] [], .ok signature⟩,
   ⟨.submit [handle.refresh client.encoder.keys, handle.reconcile client.encoder.keys 0] [],
    .error insufficient⟩,
   ⟨.account client.vault, .error (.transport "closed")⟩]

def rebalanced : ExecutionResult :=
  .error ⟨[⟨0, .commit, signature⟩],
    .batchRejected 1 insufficient.code insufficient.reason, none⟩

def rebalanceBatches : List Batch :=
  [⟨.commit, [.refresh .solend, .consolidate, .rebalance none], []⟩,
   ⟨.reconcile, [.refresh .solend, .reconcile ⟨.solend, 0⟩], []⟩]

/-- What is run without effect, whatever the weights are that it is to go by. -/
def lowering (weights : Option Weights) : List Instruction :=
  [handle.refresh client.encoder.keys, .consolidate client.encoder.keys,
    .rebalance client.encoder.keys client.encoder.reserves weights]

theorem runs_lowered_project (weights : Option Weights) :
    Call.Runs (client.project weights)
      [⟨.simulate (lowering weights) [default], .ok ⟨none, [], [some lowered.encode]⟩⟩]
      (.ok loweredProjection) :=
  Client.runs_project_iff.2 ⟨_, _, _, [], lowered, rfl, rfl, rfl, rfl,
    by simpa using lowered.decode_encode client.record.address [], rfl⟩

/-- Once the vault is told to be lowered, a commit is planned and the reconcile of the venue. -/
theorem runs_lowered_plan (weights : Option Weights) :
    Call.Runs (client.planRebalance weights)
      [⟨.simulate (lowering weights) [default], .ok ⟨none, [], [some lowered.encode]⟩⟩]
      (.ok [⟨.commit, [.refresh .solend, .consolidate, .rebalance weights], []⟩,
        ⟨.reconcile, [.refresh .solend, .reconcile ⟨.solend, 0⟩], []⟩]) := by
  have hmovements : loweredProjection.target.movements loweredProjection.actual =
      .ok [⟨.solend, -600, by decide⟩] :=
    AllocationSet.movements_eq_ok_iff.2 ⟨rfl, by decide⟩
  have hroom : client.activeVenues.length + 1 + 1 ≤ client.ceiling := by decide
  have hcommit : Batch.behindRefresh client.ceiling .commit client.activeVenues
      [.rebalance weights] =
        .ok [⟨.commit, [.refresh .solend, .consolidate, .rebalance weights], []⟩] :=
    Batch.behindRefresh_of_room hroom (fun _ => rfl) .commit
  have horder : Movement.inOrder [⟨.solend, -600, by decide⟩] =
      [⟨.solend, -600, by decide⟩] := by
    simp [Movement.inOrder]
  have hplan := Client.runs_planRebalance rfl rfl (runs_lowered_project weights) hmovements
  rw [horder, Client.rebalanceBatches_of_ne_nil (by simp), hcommit] at hplan
  exact hplan

theorem runs_lowered_rebalance :
    Runs (client.rebalance none) (simulating ++ rebalancing) (rebalanced, client) := by
  have hsend : Runs (Batch.sendAll client.encoder [] rebalanceBatches .start)
      (rebalancing.take 2) (.error (.batchRejected 1 insufficient.code insufficient.reason),
        ⟨2, [⟨0, .commit, signature⟩]⟩) :=
    .ask (.ask (.done _))
  have hfinish : Runs (client.finish rebalanced) (rebalancing.drop 2) (rebalanced, client) :=
    .ask (.done _)
  have hexecuted : Runs (client.executeRebalance none) (simulating ++ rebalancing.take 2)
      rebalanced :=
    Dialogue.runs_bind_iff.2 ⟨_, _, _, rfl, runs_lowered_plan none,
      Dialogue.runs_bind_iff.2 ⟨_, _, [], rfl, hsend, .done _⟩⟩
  exact Dialogue.runs_bind_iff.2 ⟨rebalanced, simulating ++ rebalancing.take 2,
    rebalancing.drop 2, rfl, hexecuted, hfinish⟩

theorem a_venue_above_its_target_is_lowered :
    client.record.account.isHalted .refreshes = false ∧
    client.record.account.isHalted .reconciles = false ∧
    Call.Runs (client.project none) simulating (.ok loweredProjection) ∧
    Runs (client.rebalance none) (simulating ++ rebalancing) (rebalanced, client) ∧
    (loweredProjection.offTarget ≠ [] ∧ 2 ≤ client.ceiling ∧
      ∀ v ∈ loweredProjection.offTarget, v ∈ client.activeVenues) ∧
    ∃ commit reconciles sent, client.Rebalances none loweredProjection commit reconciles ∧
      Call.Runs (client.planRebalance none) simulating (.ok (commit ++ reconciles)) ∧
      Delivered (commit ++ reconciles) sent ∧
      List.Forall₂ (Sent.Reached client.encoder []) sent (submissions (simulating ++ rebalancing)) ∧
      ∀ (k : Nat) (s : Sent), sent[k]? = some s → s.batch.kind = .reconcile →
        ∃ j batch signature, j < k ∧ sent[j]? = some ⟨batch, .ok signature⟩ ∧
          batch.kind = .commit ∧ commit.getLast? = some batch := by
  have hoff : loweredProjection.offTarget = [.solend] := by decide
  have hactive : ∀ v ∈ loweredProjection.offTarget, v ∈ client.activeVenues := by
    rw [hoff]
    decide
  have hsome : loweredProjection.offTarget ≠ [] := by
    rw [hoff]
    decide
  exact ⟨rfl, rfl, runs_lowered_project none, runs_lowered_rebalance, ⟨hsome, by decide, hactive⟩,
    (a_rebalance_moves_what_is_off_target rfl rfl (runs_lowered_project none)
      runs_lowered_rebalance).2.2.2 hsome (by decide) hactive⟩

end OneVenue

end YieldVault
