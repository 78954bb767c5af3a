-- The law of passes: a scheduled pass comes to the number of batches that the ledger
-- took in it, whatever became of the pass. It rebalances what it has just read, and where
-- it could not read the vault it does nothing.
import YieldVault.Proofs.Proposals

namespace YieldVault

open Dialogue (Runs)

/-! ## Batches that were taken -/

/-- Whether the exchange is of a batch that the ledger took. -/
def wasTaken : Exchange → Bool
  | ⟨.submit .., .ok _⟩ => true
  | _ => false

theorem countP_submissions (exchanges : List Exchange) :
    (submissions exchanges).countP wasTaken = exchanges.countP wasTaken := by
  unfold submissions
  rw [List.countP_filter]
  apply List.countP_congr
  rintro ⟨request, reply⟩ -
  cases request <;> simp [wasTaken, Request.submits]

theorem countP_eq_zero_of_asks {exchanges : List Exchange}
    (h : ∀ exchange ∈ exchanges, ∃ address, exchange.1 = .account address) :
    exchanges.countP wasTaken = 0 := by
  apply List.countP_eq_zero.2
  rintro ⟨request, reply⟩ hmem
  obtain ⟨address, rfl⟩ := h _ hmem
  simp [wasTaken]

namespace Sent

theorem length_confirmations (sent : List Sent) :
    (confirmations sent).length = sent.countP (·.reply.toOption.isSome) := by
  unfold confirmations
  rw [List.length_filterMap_eq_countP]
  conv_rhs => rw [← List.zipIdx_map_fst 0 sent, List.countP_map]
  simp [Function.comp_def]

/-- As many batches are confirmed as the ledger took of those that reached it. -/
theorem length_confirmations_of_reached {encoder : Encoder} {keyring : List Keypair}
    {sent : List Sent} {exchanges : List Exchange}
    (h : List.Forall₂ (Reached encoder keyring) sent exchanges) :
    (confirmations sent).length = exchanges.countP wasTaken := by
  rw [length_confirmations]
  induction h with
  | nil => rfl
  | @cons s _ _ _ hreached _ ih =>
    obtain ⟨instructions, signers, -, rfl⟩ := hreached
    obtain ⟨batch, reply⟩ := s
    rw [List.countP_cons, List.countP_cons, ih]
    cases reply <;> rfl

end Sent

/-! ## Rebalances -/

namespace Client

variable {client after : Client} {exchanges : List Exchange} {result : ExecutionResult}

/-- How a rebalance by the vault's own weights goes: it plans from the record that its client has,
simulates the commit of that vault and no more, and sends what it has planned. -/
structure Rebalanced (client : Client) (exchanges : List Exchange) (result : ExecutionResult)
    (after : Client) : Prop where
  ran : Runs (client.rebalance none) exchanges (result, after)
  rehearsed : ∀ exchange ∈ exchanges, ∀ instructions accounts,
    exchange.1 = .simulate instructions accounts →
    client.encoder.operations (commitOperations client.activeVenues none) = .ok instructions ∧
    accounts = [client.record.address]
  planned : ∃ asked planned, asked <+: exchanges ∧
    Call.Runs (client.planRebalance none) asked planned ∧
    ((∃ e, planned = .error e ∧ submissions exchanges = [] ∧ result = .error (.early e)) ∨
      ∃ batches sent, planned = .ok batches ∧ Delivered batches sent ∧
        List.Forall₂ (Sent.Reached client.encoder []) sent (submissions exchanges))

theorem rebalanced_of_runs (hrun : Runs (client.rebalance none) exchanges (result, after)) :
    client.Rebalanced exchanges result after := by
  refine ⟨hrun, ?_, ?_⟩
  · obtain ⟨batches, asked, sent, handed, closed, rfl, hasked, -, -, hreached, -, -, hclosed⟩ :=
      sent_of_runs_rebalance hrun
    intro exchange hexchange instructions accounts hsimulate
    simp only [List.mem_append] at hexchange
    rcases hexchange with hexchange | hexchange | hexchange
    · obtain ⟨others, hencoded, hother⟩ := hasked exchange hexchange
      rw [hsimulate] at hother
      cases hother
      exact ⟨hencoded, rfl⟩
    · obtain ⟨s, -, _, _, -, rfl⟩ := Sent.exists_of_mem_reached hreached hexchange
      cases hsimulate
    · obtain ⟨address, haddress⟩ := hclosed exchange hexchange
      rw [haddress] at hsimulate
      cases hsimulate
  · obtain ⟨outcome, executed, closed, rfl, hexecuted, -⟩ := Dialogue.runs_bind_iff.1 hrun
    obtain ⟨planned, asked, later, rfl, hplan, -⟩ := Dialogue.runs_bind_iff.1 hexecuted
    rw [List.append_assoc] at hrun ⊢
    refine ⟨asked, planned, List.prefix_append _ _, hplan, ?_⟩
    rcases runs_rebalance_cases hplan hrun with
      hunplanned | ⟨batches, sent, handed, _, hplanned, hdelivered, hreached, -, hsubmitted, -⟩
    · exact .inl hunplanned
    · exact .inr ⟨batches, sent, hplanned, hdelivered, by rwa [hsubmitted]⟩

/-- A rebalance reports as many batches as the ledger took, whatever came of it. -/
theorem length_reported_of_runs_rebalance {weights : Option Weights}
    (hrun : Runs (client.rebalance weights) exchanges (result, after)) :
    (reported result).length = exchanges.countP wasTaken := by
  obtain ⟨batches, asked, sent, handed, closed, -, -, -, -, hreached, hsubmitted, hreported, -⟩ :=
    sent_of_runs_rebalance hrun
  rw [hreported, Sent.length_confirmations_of_reached hreached, ← hsubmitted, countP_submissions]

/-! ## Passes -/

variable {n : Nat}

/-- A pass is of nothing but its reading, or goes on with a rebalance of what was read. -/
theorem runs_pass_cases (hrun : Runs client.pass exchanges (n, after)) :
    (∃ e, Call.Runs (VaultRecord.load client.vault (client.record.version + 1)) exchanges
        (.error e) ∧ n = 0 ∧ after = client) ∨
    ∃ record reading rest result, exchanges = reading ++ rest ∧
      Call.Runs (VaultRecord.load client.vault (client.record.version + 1)) reading (.ok record) ∧
      Runs (rebalance { client with record := record } none) rest (result, after) ∧
      n = (reported result).length := by
  obtain ⟨⟨reloaded, fresh⟩, reading, rest, rfl, hreload, hrest⟩ := Dialogue.runs_bind_iff.1 hrun
  cases rereads_of_runs_reload hreload with
  | kept hload =>
    obtain ⟨rfl, hcount⟩ := Dialogue.runs_done_iff.1 hrest
    cases hcount
    exact .inl ⟨_, by rwa [List.append_nil], rfl, rfl⟩
  | @replaced record hload _ =>
    obtain ⟨⟨result, left⟩, first, last, rfl, hrebalance, hlast⟩ :=
      Dialogue.runs_bind_iff.1 hrest
    have hend : last = [] ∧ n = (reported result).length ∧ after = left := by
      cases result <;>
      · obtain ⟨rfl, hcount⟩ := Dialogue.runs_done_iff.1 hlast
        cases hcount
        exact ⟨rfl, rfl, rfl⟩
    obtain ⟨rfl, rfl, rfl⟩ := hend
    rw [List.append_nil]
    exact .inr ⟨record, reading, first, result, rfl, hload, hrebalance, rfl⟩

/-- The pass of a client that reads the vault goes on from what it read. -/
theorem runs_pass_of_load {record : VaultRecord} {reading rest : List Exchange}
    (hload : Call.Runs (VaultRecord.load client.vault (client.record.version + 1)) reading
      (.ok record))
    (hrun : Runs (rebalance { client with record := record } none) rest (result, after)) :
    Runs client.pass (reading ++ rest) ((reported result).length, after) := by
  have hreload : Runs client.reload reading (.ok (), { client with record := record }) :=
    Dialogue.runs_bind_iff.2 ⟨.ok record, reading, [], (List.append_nil _).symm, hload, .done _⟩
  refine Dialogue.runs_bind_iff.2 ⟨_, reading, rest, rfl, hreload, ?_⟩
  refine Dialogue.runs_bind_iff.2 ⟨_, rest, [], (List.append_nil _).symm, hrun, ?_⟩
  cases result <;> exact .done _

end Client

/-! ## The law -/

/-- Whatever the ledger answers, a pass comes to the number of batches that the ledger took in it.
Where the vault cannot be read that is none: the pass only asks for accounts, and leaves the client
as it was. Otherwise it rebalances by the record that it read; of the one before, nothing but its
version tells. -/
theorem a_pass_counts_what_the_ledger_took {client after : Client} {exchanges : List Exchange}
    {n : Nat} (hrun : Runs client.pass exchanges (n, after)) :
    n = exchanges.countP wasTaken ∧
    ((∃ e, Call.Runs (VaultRecord.load client.vault (client.record.version + 1)) exchanges
        (.error e) ∧ n = 0 ∧ after = client ∧
        ∀ exchange ∈ exchanges, ∃ address, exchange.1 = .account address) ∨
      ∃ record reading rest result, exchanges = reading ++ rest ∧
        Call.Runs (VaultRecord.load client.vault (client.record.version + 1)) reading
          (.ok record) ∧
        Client.Rebalanced { client with record := record } rest result after ∧
        n = (reported result).length ∧
        ∀ other : VaultRecord, other.version = client.record.version →
          Runs (Client.pass { client with record := other }) exchanges (n, after)) := by
  rcases Client.runs_pass_cases hrun with
    ⟨e, hload, rfl, rfl⟩ | ⟨record, reading, rest, result, rfl, hload, hrebalance, rfl⟩
  · have hasks := (VaultRecord.keeps_load _ _).asks hload
    exact ⟨(countP_eq_zero_of_asks hasks).symm, .inl ⟨e, hload, rfl, rfl, hasks⟩⟩
  · have hasks := (VaultRecord.keeps_load _ _).asks hload
    refine ⟨?_, .inr ⟨record, reading, rest, result, rfl, hload,
      Client.rebalanced_of_runs hrebalance, rfl, fun other hother => ?_⟩⟩
    · rw [List.countP_append, countP_eq_zero_of_asks hasks, Nat.zero_add,
        Client.length_reported_of_runs_rebalance hrebalance]
    · refine Client.runs_pass_of_load ?_ hrebalance
      rwa [show other.version + 1 = client.record.version + 1 by rw [hother]]

namespace OneVenue

/-- Both batches of the rebalance are taken, and then the vault cannot be read. -/
def carrying : List Exchange :=
  [⟨.submit (lowering none) [], .ok signature⟩,
   ⟨.submit [handle.refresh client.encoder.keys, handle.reconcile client.encoder.keys 0] [],
    .ok signature⟩,
   ⟨.account client.vault, .error (.transport "closed")⟩]

def carried : List Confirmation := [⟨0, .commit, signature⟩, ⟨1, .reconcile, signature⟩]

theorem runs_carried_rebalance :
    Runs (reread.rebalance none) (simulating ++ carrying)
      (.error ⟨carried, .transport "closed", none⟩, reread) := by
  have hsend : Runs (Batch.sendAll reread.encoder [] rebalanceBatches .start) (carrying.take 2)
      (.ok (), ⟨2, carried⟩) :=
    .ask (.ask (.done _))
  have hexecuted : Runs (reread.executeRebalance none) (simulating ++ carrying.take 2)
      (.ok carried) :=
    Dialogue.runs_bind_iff.2 ⟨_, _, _, rfl, runs_lowered_plan none,
      Dialogue.runs_bind_iff.2 ⟨_, _, [], rfl, hsend, .done _⟩⟩
  exact Dialogue.runs_bind_iff.2 ⟨.ok carried, simulating ++ carrying.take 2, carrying.drop 2, rfl,
    hexecuted, .ask (.done _)⟩

theorem runs_carried_pass : Runs client.pass (opening ++ (simulating ++ carrying)) (2, reread) := by
  have hload : Call.Runs (VaultRecord.load client.vault (client.record.version + 1)) opening
      (.ok reread.record) := by
    cases Client.rereads_of_runs_reload runs_reload
    assumption
  exact Client.runs_pass_of_load hload runs_carried_rebalance

/-- Two batches are counted, although the pass ends with a failure. -/
theorem a_pass_counts_two_batches :
    Runs client.pass (opening ++ (simulating ++ carrying)) (2, reread) ∧
    2 = (opening ++ (simulating ++ carrying)).countP wasTaken ∧
    ((∃ e, Call.Runs (VaultRecord.load client.vault (client.record.version + 1))
        (opening ++ (simulating ++ carrying)) (.error e) ∧ 2 = 0 ∧ reread = client ∧
        ∀ exchange ∈ opening ++ (simulating ++ carrying),
          ∃ address, exchange.1 = .account address) ∨
      ∃ record reading rest result, opening ++ (simulating ++ carrying) = reading ++ rest ∧
        Call.Runs (VaultRecord.load client.vault (client.record.version + 1)) reading
          (.ok record) ∧
        Client.Rebalanced { client with record := record } rest result reread ∧
        2 = (reported result).length ∧
        ∀ other : VaultRecord, other.version = client.record.version →
          Runs (Client.pass { client with record := other })
            (opening ++ (simulating ++ carrying)) (2, reread)) :=
  ⟨runs_carried_pass, a_pass_counts_what_the_ledger_took runs_carried_pass⟩

end OneVenue

end YieldVault
