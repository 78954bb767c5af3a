-- The law of commits: what a rebalance runs without effect, to learn what it would aim
-- at, is instruction for instruction what it commits, however the commit is cut into
-- batches.
import YieldVault.Proofs.Encodings
import YieldVault.Proofs.Payout

namespace YieldVault

/-! ## Batches one after the other -/

namespace Encoder

variable {encoder : Encoder} {batches : List Batch}

/-- Batches that are encoded one by one come to the instructions of all their operations. -/
theorem operations_of_mapM_encode {parts : List (List Instruction)}
    (h : batches.mapM encoder.encode = .ok parts) :
    encoder.operations (batches.flatMap (·.operations)) = .ok parts.flatten := by
  induction Except.mapM_eq_ok_iff.1 h with
  | nil => rfl
  | cons hpart hothers ih =>
    rw [List.flatMap_cons]
    exact operations_append_iff.2
      ⟨_, _, hpart, ih (Except.mapM_eq_ok_iff.2 hothers), List.flatten_cons⟩

theorem exists_mapM_encode {venues : List Venue}
    (hwired : ∀ v ∈ venues, encoder.handles.contains v)
    (hwithin : ∀ batch ∈ batches, ∀ op ∈ batch.operations, op.Within venues) :
    ∃ parts, batches.mapM encoder.encode = .ok parts :=
  Except.exists_mapM_eq_ok fun batch hbatch => exists_operations hwired (hwithin batch hbatch)

/-- A batch that ends in two operations of one instruction each ends in these instructions. -/
theorem operations_behind_preamble {venues : List Venue} {weights : Option Weights}
    {instructions : List Instruction}
    (h : encoder.operations (Batch.preamble venues ++ [.rebalance weights]) = .ok instructions) :
    ∃ refreshes, instructions = refreshes ++
      [.consolidate encoder.keys, .rebalance encoder.keys encoder.reserves weights] := by
  rw [Batch.preamble, List.append_assoc] at h
  obtain ⟨refreshes, rest, -, hrest, rfl⟩ := operations_append_iff.1 h
  cases hrest
  exact ⟨refreshes, rfl⟩

end Encoder

/-! ## Projections -/

namespace Client

/-- A projection asks about the instructions of the commit, and nothing else. -/
theorem simulated_of_runs_project {client : Client} {weights : Option Weights}
    {instructions : List Instruction} {exchanges : List Exchange}
    {outcome : Except Error Projection}
    (hencoded : client.encoder.operations (commitOperations client.activeVenues weights) =
      .ok instructions)
    (hrun : Call.Runs (client.project weights) exchanges outcome) :
    ∃ reply, exchanges = [⟨.simulate instructions [client.record.address], reply⟩] := by
  unfold project at hrun
  rcases Call.runs_lift_bind_iff.1 hrun with ⟨_, hok, hrun⟩ | ⟨e, hfailed, -, -⟩
  · rw [hencoded] at hok
    cases hok
    rcases Call.runs_bind_iff.1 hrun with ⟨simulation, first, rest, rfl, hfirst, hrest⟩ |
      ⟨e, hfirst, -⟩
    · -- what is read off the simulation asks nothing more
      have hrest : rest = [] := by
        rcases Call.runs_lift_bind_iff.1 hrest with ⟨accepted, -, hread⟩ | ⟨e, -, hnone, -⟩
        · split at hread
          · rcases Call.runs_lift_bind_iff.1 hread with ⟨account, -, hread⟩ | ⟨e, -, hnone, -⟩
            · exact (Call.runs_pure_iff.1 hread).1
            · exact hnone
          · exact (Call.runs_throw_iff.1 hread).1
        · exact hnone
      rw [hrest, Call.runs_simulate_iff.1 hfirst]
      exact ⟨.ok simulation, rfl⟩
    · exact ⟨.error e, Call.runs_simulate_iff.1 hfirst⟩
  · rw [hencoded] at hfailed
    cases hfailed

end Client

/-! ## The law -/

/-- The batches that commit a target come, one after the other, to the instructions that a projection
by the same weights has the ledger run without effect; and the last of them ends with the vault's
total and the commit. -/
theorem a_commit_is_what_was_simulated {encoder : Encoder} {venues : List Venue}
    {weights : Option Weights} {ceiling : Nat} {batches : List Batch}
    (hwired : ∀ v ∈ venues, encoder.handles.contains v)
    (hcommit : Batch.behindRefresh ceiling .commit venues [.rebalance weights] = .ok batches) :
    ∃ parts leading inline,
      batches.mapM encoder.encode = .ok parts ∧
      parts = leading ++ [inline ++
        [.consolidate encoder.keys, .rebalance encoder.keys encoder.reserves weights]] ∧
      encoder.operations (Client.commitOperations venues weights) = .ok parts.flatten ∧
      ∀ client : Client, client.encoder = encoder → client.activeVenues = venues →
        ∀ exchanges outcome, Call.Runs (client.project weights) exchanges outcome →
        ∃ reply, exchanges = [⟨.simulate parts.flatten [client.record.address], reply⟩] := by
  have hwithin : ∀ batch ∈ batches, ∀ op ∈ batch.operations, op.Within venues :=
    fun batch hbatch =>
      (Batch.routine_of_behindRefresh (by simp [Operation.Within]) hcommit batch hbatch).within
  obtain ⟨parts, hparts⟩ := Encoder.exists_mapM_encode hwired hwithin
  have hsimulated : encoder.operations (Client.commitOperations venues weights) =
      .ok parts.flatten := by
    rw [Client.commitOperations, ← Batch.operations_behindRefresh hcommit]
    exact Encoder.operations_of_mapM_encode hparts
  obtain ⟨ahead, beside, -, rfl, -, -⟩ := Batch.behindRefresh_eq_ok hcommit
  have hsplit := hparts
  rw [List.mapM_append] at hsplit
  obtain ⟨leading, hleading, hrest⟩ := Except.bind_eq_ok_iff.1 hsplit
  obtain ⟨lasts, hlasts, hall⟩ := Except.bind_eq_ok_iff.1 hrest
  rw [List.mapM_cons] at hlasts
  obtain ⟨last, hlast, hnone⟩ := Except.bind_eq_ok_iff.1 hlasts
  cases hnone
  cases hall
  obtain ⟨inline, rfl⟩ := Encoder.operations_behind_preamble hlast
  refine ⟨_, leading, inline, hparts, rfl, hsimulated, ?_⟩
  rintro client rfl rfl exchanges outcome hrun
  exact Client.simulated_of_runs_project hsimulated hrun

/-! ## A commit in two batches

A vault of three venues under a ceiling of four instructions: the refresh of the first venue goes
ahead of the commit. -/

namespace ThreeVenues

/-- The three venues, all reached by accounts of one address. -/
def handles : VenueMap Handle where
  solend := some ⟨.solend ⟨default, default, default, default, default, default, default⟩,
    default, default⟩
  port := some ⟨.port ⟨default, default, default, default, default, none⟩, default, default⟩
  jet := some ⟨.jet ⟨default, default, default, default, default, default, default⟩,
    default, default⟩

def account : VaultAccount := { OneVenue.account 1000 with sourceFlags := 7 }

def client : Client :=
  { OneVenue.client with
    handles := handles, ceiling := 4, record := ⟨default, 1, account, 1000, 0⟩ }

def batches : List Batch :=
  [⟨.refresh, [.refresh .solend], []⟩,
   ⟨.commit, [.refresh .port, .refresh .jet, .consolidate, .rebalance none], []⟩]

theorem activeVenues_client : client.activeVenues = [.solend, .port, .jet] := rfl

theorem a_commit_in_two_batches_is_what_was_simulated :
    (∀ v ∈ client.activeVenues, client.encoder.handles.contains v) ∧
    Batch.behindRefresh 4 .commit client.activeVenues [.rebalance none] = .ok batches ∧
    ∃ parts leading inline,
      batches.mapM client.encoder.encode = .ok parts ∧
      parts = leading ++ [inline ++ [.consolidate client.encoder.keys,
        .rebalance client.encoder.keys client.encoder.reserves none]] ∧
      client.encoder.operations (Client.commitOperations client.activeVenues none) =
        .ok parts.flatten ∧
      ∀ other : Client, other.encoder = client.encoder →
        other.activeVenues = client.activeVenues →
        ∀ exchanges outcome, Call.Runs (other.project none) exchanges outcome →
        ∃ reply, exchanges = [⟨.simulate parts.flatten [other.record.address], reply⟩] := by
  have hcommit : Batch.behindRefresh 4 .commit client.activeVenues [.rebalance none] =
      .ok batches := by
    simp [activeVenues_client, Batch.behindRefresh, Batch.pieces, Operation.total,
      Operation.operands, Batch.single, Batch.preamble, Batch.operands, Batch.isRefreshedFirst,
      Batch.refreshedFirst, bind, Except.bind, pure, Except.pure, batches]
  exact ⟨client.wired, hcommit, a_commit_is_what_was_simulated client.wired hcommit⟩

end ThreeVenues

end YieldVault
