-- The law of proposals: weights proposed for a rebalance reach the ledger unchanged. What is
-- run without effect and what is committed carry the same arguments: the last weight
-- listed for each venue, in venue order.
import YieldVault.Proofs.Commits
import YieldVault.Proofs.Halts
import YieldVault.Proofs.Rebalances
import YieldVault.Proofs.Weightings

namespace YieldVault

open Dialogue (Runs)

/-! ## Arguments -/

/-- The arguments that tell the last weight of each venue in a list of pairs: two bytes for each
venue, the low one first, in venue order. A venue that is not listed has none. -/
def Weights.arguments (pairs : List (Venue × UInt16)) : Bytes :=
  Venue.all.flatMap fun v =>
    let bps := ((lastOf pairs v).getD 0).toNat
    [UInt8.ofNat (bps % 256), UInt8.ofNat (bps / 256)]

theorem Instruction.weightBytes_of_ofList {pairs : List (Venue × UInt16)} {weights : Weights}
    (h : Weights.ofList pairs = .ok weights) :
    weightBytes (some weights) = Weights.arguments pairs := by
  obtain ⟨-, hget⟩ := Weights.ofList_eq_ok_iff.1 h
  have htwo : ∀ b : UInt16,
      Bytes.ofNat 2 b.toNat = [UInt8.ofNat (b.toNat % 256), UInt8.ofNat (b.toNat / 256)] := by
    intro b
    have hlt := b.toNat_lt
    have hhigh : b.toNat / 256 % 256 = b.toNat / 256 := by omega
    simp only [Bytes.ofNat, hhigh]
  rw [weightBytes_eq, Weights.arguments]
  simp only [Option.getD_some, Weights.bps, hget, htwo]

/-! ## Instructions that commit -/

/-- The name of the instruction that commits target allocations. -/
def Instruction.commitName : String := "rebalance"

/-- Whether an instruction opens with the tag of a commit, whichever program it is for. -/
def Instruction.commits (i : Instruction) : Bool := i.data.take 8 == instructionTag commitName

namespace Instruction

theorem commits_named {keys : VaultKeys} {name : String} {arguments : Bytes}
    {accounts : List AccountMeta} (hname : name ∈ names) :
    (named keys name arguments accounts).commits = decide (name = commitName) := by
  rw [Bool.eq_iff_iff, commits, beq_iff_eq, decide_eq_true_eq]
  exact take_data_named_iff hname (by decide)

theorem commits_of_head {i : Instruction} {b : UInt8} (hhead : i.data.head? = some b)
    (hb : b ∈ foreignHeads) : i.commits = false := by
  rw [commits, beq_eq_false_iff_ne]
  exact take_data_ne_of_head hhead hb (by decide)

end Instruction

/-- Whether an operation commits no weights but the given. -/
def Operation.Proposes (weights : Option Weights) (op : Operation) : Prop :=
  ∀ other, op = .rebalance other → other = weights

namespace Encoder

variable {encoder : Encoder} {instructions part : List Instruction} {weights : Option Weights}

/-- Only the operation of a commit makes an instruction that commits. -/
theorem exists_rebalance_of_commits {op : Operation} {i : Instruction}
    (h : encoder.operation op = .ok part) (hi : i ∈ part) (hcommits : i.commits) :
    ∃ weights, op = .rebalance weights ∧ i = .rebalance encoder.keys encoder.reserves weights := by
  have hrefresh : ∀ v ∈ Venue.all, v.refreshName ≠ Instruction.commitName := by decide
  have hreconcile : ∀ v ∈ Venue.all, v.reconcileName ≠ Instruction.commitName := by decide
  have hnamed : ∀ {name arguments accounts}, name ∈ Instruction.names →
      i = .named encoder.keys name arguments accounts → name = Instruction.commitName := by
    rintro name arguments accounts hname rfl
    rw [Instruction.commits_named hname] at hcommits
    exact of_decide_eq_true hcommits
  have hforeign : ∀ b ∈ Instruction.foreignHeads, i.data.head? ≠ some b := by
    intro b hb hhead
    rw [Instruction.commits_of_head hhead hb] at hcommits
    cases hcommits
  cases op with
  | rebalance weights =>
    cases h
    exact ⟨weights, rfl, List.mem_singleton.1 hi⟩
  | refresh v =>
    obtain ⟨handle, -, rfl⟩ := Except.map_eq_ok_iff.1 h
    have hname := Instruction.refreshName_mem handle.adapter.venue
    exact absurd (hnamed hname ((List.mem_singleton.1 hi).trans (handle.refresh_eq _)))
      (hrefresh _ (Venue.mem_all _))
  | reconcile step =>
    obtain ⟨handle, -, rfl⟩ := Except.map_eq_ok_iff.1 h
    have hname := Instruction.reconcileName_mem handle.adapter.venue
    exact absurd (hnamed hname ((List.mem_singleton.1 hi).trans (handle.reconcile_eq _ _)))
      (hreconcile _ (Venue.mem_all _))
  | consolidate =>
    cases h
    exact absurd (hnamed (by decide) (List.mem_singleton.1 hi)) (by decide)
  | deposit amount source shareAccount =>
    cases h
    exact absurd (hnamed (by decide) (List.mem_singleton.1 hi)) (by decide)
  | withdraw shares shareAccount destination =>
    cases h
    exact absurd (hnamed (by decide) (List.mem_singleton.1 hi)) (by decide)
  | createAssociated mint =>
    cases h
    rw [List.mem_singleton.1 hi] at hforeign
    exact absurd rfl (hforeign 1 (by decide))
  | wrap account lamports =>
    cases h
    rcases List.mem_cons.1 hi with rfl | hi
    · exact absurd rfl (hforeign 0 (by decide))
    · rw [List.mem_singleton.1 hi] at hforeign
      exact absurd rfl (hforeign 18 (by decide))
  | unwrap account =>
    cases h
    rw [List.mem_singleton.1 hi] at hforeign
    exact absurd rfl (hforeign 9 (by decide))

/-- Instructions of operations that commit no weights but the given commit just these. -/
theorem eq_rebalance_of_commits {ops : List Operation} {i : Instruction}
    (hops : ∀ op ∈ ops, op.Proposes weights) (h : encoder.operations ops = .ok instructions)
    (hi : i ∈ instructions) (hcommits : i.commits) :
    i = .rebalance encoder.keys encoder.reserves weights := by
  obtain ⟨earlier, later, rfl⟩ := List.append_of_mem hi
  obtain ⟨before, op, after, -, part, rfl, -, -, hpart, hi⟩ := exists_operation_of_split h
  obtain ⟨other, rfl, rfl⟩ := exists_rebalance_of_commits hpart hi hcommits
  rw [hops (.rebalance other) (by simp) other rfl]

end Encoder

/-! ## What a rebalance asks and sends -/

namespace Client

variable {client after : Client} {weights : Option Weights} {asked exchanges : List Exchange}
  {result : ExecutionResult}

theorem proposes_commitOperations (venues : List Venue) (weights : Option Weights) :
    ∀ op ∈ commitOperations venues weights, op.Proposes weights := by
  intro op hop other heq
  subst heq
  simpa [commitOperations, Batch.preamble] using hop

theorem proposes_of_behindRefresh {ceiling : Nat} {kind : BatchKind} {venues : List Venue}
    {batches : List Batch}
    (h : Batch.behindRefresh ceiling kind venues [.rebalance weights] = .ok batches) :
    ∀ batch ∈ batches, ∀ op ∈ batch.operations, op.Proposes weights := by
  rintro batch hbatch op hop other rfl
  rcases Batch.mem_operations_of_behindRefresh h hbatch hop with ⟨v, -, ⟨⟩⟩ | ⟨⟨⟩⟩ | hmem
  simpa using hmem

theorem proposes_of_pack {ceiling : Nat} {venues : List Venue} {steps : List ReconcileStep}
    {batches : List Batch} (h : Batch.pack ceiling venues steps = .ok batches) :
    ∀ batch ∈ batches, ∀ op ∈ batch.operations, op.Proposes weights := by
  rintro batch hbatch op hop other rfl
  rcases Batch.mem_operations_of_pack h hbatch hop with ⟨v, -, ⟨⟩⟩ | ⟨step, -, ⟨⟩⟩

/-- All that a rebalance asks while it plans is to run its commit without effect. -/
theorem simulates_of_runs_planRebalance {outcome : Except Error (List Batch)}
    (h : Call.Runs (client.planRebalance weights) asked outcome) :
    ∀ exchange ∈ asked, ∃ instructions,
      client.encoder.operations (commitOperations client.activeVenues weights) =
        .ok instructions ∧
      exchange.1 = .simulate instructions [client.record.address] := by
  have hkeeps : (client.planRebalance weights).Keeps
      (fun request => ∃ instructions,
        client.encoder.operations (commitOperations client.activeVenues weights) =
          .ok instructions ∧
        request = .simulate instructions [client.record.address])
      (fun _ => True) (fun _ => True) := by
    refine .lift_bind (fun _ _ => .inl trivial) fun _ _ => ?_
    refine .lift_bind (fun _ _ => .inl trivial) fun _ _ => ?_
    refine Call.Keeps.bind ?_ fun projection => ?_
    · refine .lift_bind (fun _ _ => .inl trivial) fun instructions hencoded => ?_
      refine (Call.keeps_simulate ⟨instructions, hencoded, rfl⟩).bind fun simulation => ?_
      refine .lift_bind (fun _ _ => .inr trivial) fun accepted _ => ?_
      split
      · refine .lift_bind (fun _ _ => .inr trivial) fun account _ => ?_
        exact Call.keeps_pure _
      · exact Call.keeps_throw (.inr trivial)
    · refine .lift_bind (fun _ _ => .inr trivial) fun movements _ => ?_
      exact Call.keeps_lift fun _ _ => .inr trivial
  exact hkeeps.asks h

/-- What a rebalance has laid out once it asked what it asks: no batches, or those that commit the
proposed weights, and then some that only reconcile. -/
inductive Plans (client : Client) (weights : Option Weights) (asked : List Exchange) :
    List Batch → Prop
  | nothing : Plans client weights asked []
  | moving {projection : Projection} {commit reconciles : List Batch}
      {steps : List ReconcileStep} :
      Call.Runs (client.project weights) asked (.ok projection) →
      client.Rebalances weights projection commit reconciles →
      Batch.pack client.ceiling client.activeVenues steps = .ok reconciles →
      Plans client weights asked (commit ++ reconciles)

theorem plans_of_runs_planRebalance {batches : List Batch}
    (h : Call.Runs (client.planRebalance weights) asked (.ok batches)) :
    client.Plans weights asked batches := by
  obtain ⟨-, -, projection, movements, hproject, hmovements, hbatches⟩ :=
    runs_planRebalance_iff.1 h
  by_cases hnone : Movement.inOrder movements = []
  · rw [hnone] at hbatches
    cases hbatches
    exact .nothing
  · rw [rebalanceBatches_of_ne_nil hnone] at hbatches
    obtain ⟨commit, hcommit, hrest⟩ := Except.bind_eq_ok_iff.1 hbatches
    obtain ⟨reconciles, hpack, hbatches⟩ := Except.bind_eq_ok_iff.1 hrest
    cases hbatches
    exact .moving hproject (rebalances_of_pack hmovements hcommit hpack) hpack

namespace Plans

variable {batches : List Batch} {sent : List Sent}

theorem proposes (h : client.Plans weights asked batches) :
    ∀ batch ∈ batches, ∀ op ∈ batch.operations, op.Proposes weights := by
  intro batch hbatch
  cases h with
  | nothing => cases hbatch
  | moving _ hrebalances hpack =>
    rcases List.mem_append.1 hbatch with hbatch | hbatch
    · exact proposes_of_behindRefresh hrebalances.commits batch hbatch
    · exact proposes_of_pack hpack batch hbatch

/-- The batch that is to commit holds the commit as its last operation. -/
theorem operations_of_commit (h : client.Plans weights asked batches) {batch : Batch}
    (hbatch : batch ∈ batches) (hkind : batch.kind = .commit) :
    ∃ beside, batch.operations = Batch.preamble beside ++ [.rebalance weights] := by
  cases h with
  | nothing => cases hbatch
  | moving _ hrebalances _ =>
    obtain ⟨leading, last, beside, rfl, hleading, -, hlast, -⟩ :=
      Batch.layers_of_behindRefresh hrebalances.commits
    rcases List.mem_append.1 hbatch with hmem | hmem
    · rcases List.mem_append.1 hmem with hmem | hmem
      · rw [hleading batch hmem] at hkind
        cases hkind
      · rw [List.mem_singleton.1 hmem]
        exact ⟨beside, hlast⟩
    · rw [hrebalances.kind batch hmem] at hkind
      cases hkind

/-- No reconcile is sent before the commit was taken. -/
theorem taken_before (h : client.Plans weights asked batches) (hsent : Delivered batches sent)
    {k : Nat} {s : Sent} (hk : sent[k]? = some s) (hkind : s.batch.kind = .reconcile) :
    ∃ j batch signature, j < k ∧ sent[j]? = some ⟨batch, .ok signature⟩ ∧
      batch.kind = .commit := by
  cases h with
  | nothing =>
    cases hsent
    cases hk
  | moving _ hrebalances _ =>
    obtain ⟨j, batch, signature, hlt, hj, hcommit, -⟩ := hrebalances.taken_before hsent hk hkind
    exact ⟨j, batch, signature, hlt, hj, hcommit⟩

/-- Batches are laid out only of what was simulated. -/
theorem simulated (h : client.Plans weights asked batches) (hsome : batches ≠ []) :
    ∃ exchange ∈ asked, ∃ instructions accounts,
      exchange.1 = .simulate instructions accounts := by
  cases h with
  | nothing => exact absurd rfl hsome
  | moving hproject _ _ =>
    obtain ⟨instructions, _, _, _, _, -, rfl, -⟩ := runs_project_iff.1 hproject
    exact ⟨_, List.mem_singleton_self _, instructions, _, rfl⟩

end Plans

/-- A rebalance asks for a run of its commit, sends batches that it has laid out, and reads
accounts. -/
theorem sent_of_runs_rebalance
    (hrun : Runs (client.rebalance weights) exchanges (result, after)) :
    ∃ batches asked sent handed closed, exchanges = asked ++ (handed ++ closed) ∧
      (∀ exchange ∈ asked, ∃ instructions,
        client.encoder.operations (commitOperations client.activeVenues weights) =
          .ok instructions ∧
        exchange.1 = .simulate instructions [client.record.address]) ∧
      client.Plans weights asked batches ∧ Delivered batches sent ∧
      List.Forall₂ (Sent.Reached client.encoder []) sent handed ∧
      submissions exchanges = handed ∧ reported result = Sent.confirmations sent ∧
      ∀ exchange ∈ closed, ∃ address, exchange.1 = .account address := by
  obtain ⟨outcome, executed, closed, rfl, hexecuted, hclosed⟩ := Dialogue.runs_bind_iff.1 hrun
  obtain ⟨planned, asked, later, rfl, hplan, hsend⟩ := Dialogue.runs_bind_iff.1 hexecuted
  have hasked := simulates_of_runs_planRebalance hplan
  rw [List.append_assoc] at hrun ⊢
  rcases runs_rebalance_cases hplan hrun with
    ⟨e, rfl, hsubmitted, rfl⟩ |
    ⟨batches, sent, handed, closed, rfl, hdelivered, hreached, hlater, hsubmitted, hclosed⟩
  · obtain ⟨rfl, -⟩ := Dialogue.runs_done_iff.1 hsend
    exact ⟨[], asked, [], [], closed, rfl, hasked, .nothing, .nil, .nil, hsubmitted, rfl,
      asks_of_runs_finish hclosed⟩
  · rw [hlater] at hsubmitted ⊢
    refine ⟨batches, asked, sent, handed, closed, rfl, hasked, plans_of_runs_planRebalance hplan,
      hdelivered, hreached, hsubmitted, ?_, asks_of_runs_finish hclosed⟩
    rw [(reported_of_runs_finish hclosed).2.1]
    cases Sent.verdict 0 sent <;> rfl

end Client

/-! ## The law -/

/-- Whether an instruction is a commit with some arguments. -/
def Instruction.Carries (i : Instruction) (arguments : Bytes) : Prop :=
  i.data = instructionTag commitName ++ arguments

/-- Whether the exchange of a batch that is to commit ends with the commit and its arguments. -/
def Sent.Commits (arguments : Bytes) (s : Sent) (exchange : Exchange) : Prop :=
  s.batch.kind = .commit →
    ∃ before i signers, exchange = ⟨.submit (before ++ [i]) signers, s.reply⟩ ∧ i.Carries arguments

/-- What a rebalance has told the ledger that sent some batches: in which of its exchanges the
commit stands, and that it carries the given arguments wherever it does. -/
structure Tells (exchanges : List Exchange) (sent : List Sent) (arguments : Bytes) : Prop where
  /-- Whatever commits, in a simulation or in a batch, carries the arguments. -/
  only : ∀ exchange ∈ exchanges, ∀ i ∈ exchange.1.instructions, i.commits → i.Carries arguments
  /-- Every simulation ends with the commit. -/
  simulated : ∀ exchange ∈ exchanges, ∀ instructions accounts,
    exchange.1 = .simulate instructions accounts →
    ∃ before i, instructions = before ++ [i] ∧ i.Carries arguments
  /-- The batch that is to commit ends with it, whatever became of that batch. -/
  committed : List.Forall₂ (Sent.Commits arguments) sent (submissions exchanges)
  /-- Nothing is sent that was not simulated, -/
  rehearsed : sent ≠ [] → ∃ exchange ∈ exchanges, ∃ instructions accounts,
    exchange.1 = .simulate instructions accounts
  /-- and nothing is reconciled before the commit was taken. -/
  first : ∀ (k : Nat) (s : Sent), sent[k]? = some s → s.batch.kind = .reconcile →
    ∃ j batch signature, j < k ∧ sent[j]? = some ⟨batch, .ok signature⟩ ∧ batch.kind = .commit

theorem Instruction.carries_rebalance {pairs : List (Venue × UInt16)} {weights : Weights}
    (h : Weights.ofList pairs = .ok weights) (keys : VaultKeys) (reserves : PerVenue Key) :
    (rebalance keys reserves (some weights)).Carries (Weights.arguments pairs) := by
  rw [← weightBytes_of_ofList h]
  rfl

namespace Client

variable {client after : Client} {weights : Weights} {exchanges asked handed : List Exchange}
  {result : ExecutionResult} {pairs : List (Venue × UInt16)} {batches : List Batch}
  {sent : List Sent}

/-- What goes into a list of instructions that commits no weights but the given carries these. -/
theorem carries_of_commits (hweights : Weights.ofList pairs = .ok weights) {ops : List Operation}
    {instructions : List Instruction} (hops : ∀ op ∈ ops, op.Proposes (some weights))
    (hencoded : client.encoder.operations ops = .ok instructions) :
    ∀ i ∈ instructions, i.commits → i.Carries (Weights.arguments pairs) := by
  intro i hi hcommits
  rw [Encoder.eq_rebalance_of_commits hops hencoded hi hcommits]
  exact Instruction.carries_rebalance hweights _ _

/-- Instructions of a commit behind the vault's total end with it. -/
theorem exists_last_of_operations (hweights : Weights.ofList pairs = .ok weights)
    {venues : List Venue} {instructions : List Instruction}
    (hencoded : client.encoder.operations (Batch.preamble venues ++ [.rebalance (some weights)]) =
      .ok instructions) :
    ∃ before i, instructions = before ++ [i] ∧ i.Carries (Weights.arguments pairs) := by
  obtain ⟨refreshes, rfl⟩ := Encoder.operations_behind_preamble hencoded
  have hlast := Instruction.carries_rebalance hweights client.encoder.keys client.encoder.reserves
  refine ⟨refreshes ++ [.consolidate client.encoder.keys], _, ?_, hlast⟩
  rw [List.append_assoc]
  rfl

theorem commits_of_reached (hweights : Weights.ofList pairs = .ok weights)
    (hplans : client.Plans (some weights) asked batches) (hdelivered : Delivered batches sent)
    (hreached : List.Forall₂ (Sent.Reached client.encoder []) sent handed) :
    List.Forall₂ (Sent.Commits (Weights.arguments pairs)) sent handed := by
  have hall : List.Forall₂
      (fun s exchange => s ∈ sent ∧ Sent.Reached client.encoder [] s exchange) sent handed :=
    (List.forall₂_and_left sent handed).2 ⟨fun _ hs => hs, hreached⟩
  apply hall.imp
  rintro s exchange ⟨hs, instructions, signers, hready, rfl⟩ hkind
  obtain ⟨beside, hoperations⟩ := hplans.operations_of_commit (hdelivered.batch_mem hs) hkind
  obtain ⟨_, hencoded, hrest⟩ := Except.bind_eq_ok_iff.1 hready
  obtain ⟨_, -, hpair⟩ := Except.bind_eq_ok_iff.1 hrest
  cases hpair
  rw [Encoder.encode, hoperations] at hencoded
  obtain ⟨before, i, rfl, hcarries⟩ := exists_last_of_operations hweights hencoded
  exact ⟨before, i, signers, rfl, hcarries⟩

theorem only_of_reached (hweights : Weights.ofList pairs = .ok weights)
    (hplans : client.Plans (some weights) asked batches) (hdelivered : Delivered batches sent)
    (hreached : List.Forall₂ (Sent.Reached client.encoder []) sent handed) :
    ∀ exchange ∈ handed, ∀ i ∈ exchange.1.instructions, i.commits →
      i.Carries (Weights.arguments pairs) := by
  intro exchange hexchange
  obtain ⟨s, hs, instructions, signers, hready, rfl⟩ := Sent.exists_of_mem_reached hreached hexchange
  obtain ⟨_, hencoded, hrest⟩ := Except.bind_eq_ok_iff.1 hready
  obtain ⟨_, -, hpair⟩ := Except.bind_eq_ok_iff.1 hrest
  cases hpair
  exact carries_of_commits hweights (hplans.proposes s.batch (hdelivered.batch_mem hs)) hencoded

theorem tells_of_runs_rebalance (hweights : Weights.ofList pairs = .ok weights)
    (hrun : Runs (client.rebalance (some weights)) exchanges (result, after)) :
    ∃ sent, List.Forall₂ (Sent.Reached client.encoder []) sent (submissions exchanges) ∧
      reported result = Sent.confirmations sent ∧
      Tells exchanges sent (Weights.arguments pairs) := by
  obtain ⟨batches, asked, sent, handed, closed, rfl, hasked, hplans, hdelivered, hreached,
    hsubmitted, hreported, hclosed⟩ := sent_of_runs_rebalance hrun
  refine ⟨sent, hsubmitted.symm ▸ hreached, hreported, ?_, ?_, ?_, ?_, ?_⟩
  · intro exchange hexchange
    simp only [List.mem_append] at hexchange
    rcases hexchange with hexchange | hexchange | hexchange
    · obtain ⟨instructions, hencoded, hsimulate⟩ := hasked exchange hexchange
      rw [hsimulate]
      exact carries_of_commits hweights (proposes_commitOperations _ _) hencoded
    · exact only_of_reached hweights hplans hdelivered hreached exchange hexchange
    · obtain ⟨address, haddress⟩ := hclosed exchange hexchange
      rw [haddress]
      simp [Request.instructions]
  · intro exchange hexchange instructions accounts hsimulate
    simp only [List.mem_append] at hexchange
    rcases hexchange with hexchange | hexchange | hexchange
    · obtain ⟨others, hencoded, hother⟩ := hasked exchange hexchange
      rw [hsimulate] at hother
      cases hother
      exact exists_last_of_operations hweights hencoded
    · obtain ⟨s, -, _, _, -, rfl⟩ := Sent.exists_of_mem_reached hreached hexchange
      cases hsimulate
    · obtain ⟨address, haddress⟩ := hclosed exchange hexchange
      rw [haddress] at hsimulate
      cases hsimulate
  · rw [hsubmitted]
    exact commits_of_reached hweights hplans hdelivered hreached
  · intro hsome
    obtain ⟨s, hs⟩ := List.exists_mem_of_ne_nil sent hsome
    obtain ⟨exchange, hexchange, hsimulate⟩ :=
      hplans.simulated (List.ne_nil_of_mem (hdelivered.batch_mem hs))
    exact ⟨exchange, List.mem_append_left _ hexchange, hsimulate⟩
  · intro k s
    exact hplans.taken_before hdelivered

end Client

/-- Whatever pairs of venues and weights are listed, in whatever order and however often: they make
weights unless one of them is above the whole, be it overwritten or not; the weights hold the last
of each venue, in venue order, and their own list makes them again; and in a rebalance by them,
whatever the ledger answers, the simulated and the committed instruction carry the last weight of
each venue. -/
theorem proposed_weights_reach_the_ledger (pairs : List (Venue × UInt16)) :
    ((∃ weights, Weights.ofList pairs = .ok weights) ↔ ∀ p ∈ pairs, p.2.toNat ≤ 10000) ∧
    ∀ weights, Weights.ofList pairs = .ok weights →
      weights.SumsUp pairs ∧ Weights.ofList weights.toList = .ok weights ∧
      ∀ (client after : Client) (exchanges : List Exchange) (result : ExecutionResult),
        Runs (client.rebalance (some weights)) exchanges (result, after) →
        ∃ sent, List.Forall₂ (Sent.Reached client.encoder []) sent (submissions exchanges) ∧
          reported result = Sent.confirmations sent ∧
          Tells exchanges sent (Weights.arguments pairs) := by
  refine ⟨Weights.exists_ofList_iff, fun weights hweights => ?_⟩
  refine ⟨Weights.sumsUp_of_ofList hweights, weights.ofList_toList, ?_⟩
  intro client after exchanges result hrun
  exact Client.tells_of_runs_rebalance hweights hrun

namespace OneVenue

/-- Weights of two venues, where the first is listed twice. -/
def listed : List (Venue × UInt16) := [(.solend, 9000), (.jet, 258), (.solend, 4000)]

def proposed : Weights := .ofLast listed (by decide)

/-- The commit is simulated and then refused, and the vault cannot be read. -/
def proposing : List Exchange :=
  [⟨.simulate (lowering (some proposed)) [default], .ok ⟨none, [], [some lowered.encode]⟩⟩,
   ⟨.submit (lowering (some proposed)) [], .error insufficient⟩,
   ⟨.account client.vault, .error (.transport "closed")⟩]

def proposingResult : ExecutionResult :=
  .error ⟨[], .batchRejected 0 insufficient.code insufficient.reason, none⟩

theorem runs_proposed_rebalance :
    Runs (client.rebalance (some proposed)) proposing (proposingResult, client) := by
  have hsend : Runs (Batch.sendAll client.encoder []
      [⟨.commit, [.refresh .solend, .consolidate, .rebalance (some proposed)], []⟩,
        ⟨.reconcile, [.refresh .solend, .reconcile ⟨.solend, 0⟩], []⟩] .start) [proposing[1]]
      (.error (.batchRejected 0 insufficient.code insufficient.reason), ⟨1, []⟩) :=
    .ask (.done _)
  have hexecuted : Runs (client.executeRebalance (some proposed)) (proposing.take 2)
      proposingResult :=
    Dialogue.runs_bind_iff.2 ⟨_, _, _, rfl, runs_lowered_plan (some proposed),
      Dialogue.runs_bind_iff.2 ⟨_, _, [], rfl, hsend, .done _⟩⟩
  exact Dialogue.runs_bind_iff.2 ⟨proposingResult, _, proposing.drop 2, rfl, hexecuted,
    .ask (.done _)⟩

theorem the_last_weight_listed_is_proposed :
    Weights.ofList listed = .ok proposed ∧
    Runs (client.rebalance (some proposed)) proposing (proposingResult, client) ∧
    Weights.arguments listed = [0xa0, 0x0f, 0, 0, 2, 1] ∧
    ∃ sent, List.Forall₂ (Sent.Reached client.encoder []) sent (submissions proposing) ∧
      reported proposingResult = Sent.confirmations sent ∧
      Tells proposing sent (Weights.arguments listed) := by
  obtain ⟨hmade, hlaw⟩ := proposed_weights_reach_the_ledger listed
  have hproposed : Weights.ofList listed = .ok proposed :=
    Weights.ofList_eq_ok_iff.2 ⟨by decide, Weights.get?_ofLast _⟩
  exact ⟨hproposed, runs_proposed_rebalance, by decide,
    (hlaw proposed hproposed).2.2 client client proposing proposingResult runs_proposed_rebalance⟩

end OneVenue

end YieldVault
