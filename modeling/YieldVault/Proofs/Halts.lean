-- The law of halts: nothing that a vault is halted for is simulated or submitted. A call
-- that is refused on account of a halt asks nothing for itself; and what decides about
-- a refusal is the flags of the activities that the call needs, and no others.
import YieldVault.Proofs.Refusals
import YieldVault.Proofs.Shapes
import YieldVault.Proofs.Snapshots

namespace YieldVault

open Dialogue (Runs)

/-! ## What is carried out -/

/-- The instructions that a question carries, to be run without effect or to be submitted. -/
def Request.instructions : Request → List Instruction
  | .simulate instructions _ => instructions
  | .submit instructions _ => instructions
  | _ => []

namespace Client

/-- Whether the vault was halted for nothing that instructions do, nor for anything that the
operations do that they were built from. -/
structure Allows (client : Client) (instructions : List Instruction) : Prop where
  operations : ∃ ops, client.encoder.operations ops = .ok instructions ∧
    ∀ op ∈ ops, ∀ activity, op.activity = some activity →
      client.record.account.isHalted activity = false
  instructions : ∀ i ∈ instructions, ∀ activity, i.does activity →
    client.record.account.isHalted activity = false

variable {client : Client}

theorem allows_of_operations {ops : List Operation} {instructions : List Instruction}
    (hencoded : client.encoder.operations ops = .ok instructions)
    (hops : ∀ op ∈ ops, ∀ activity, op.activity = some activity →
      client.record.account.isHalted activity = false) : client.Allows instructions := by
  refine ⟨⟨ops, hencoded, hops⟩, fun i hi activity hdoes => ?_⟩
  obtain ⟨op, hop, hactivity⟩ := Encoder.exists_activity_of_mem hencoded hi hdoes
  exact hops op hop activity hactivity

theorem allows_nil : client.Allows [] := by
  have hencoded : client.encoder.operations [] = .ok [] := rfl
  exact allows_of_operations hencoded (by simp)

/-- No batch is planned of what the vault is halted for. -/
theorem Lays.running {batch : Batch} (h : client.Lays batch) :
    ∀ op ∈ batch.operations, ∀ activity, op.activity = some activity →
      client.record.account.isHalted activity = false := by
  intro op hop activity hactivity
  cases h with
  | moving hrefreshes hreconciles _ hops =>
    rcases hops op hop with ⟨v, rfl⟩ | ⟨step, rfl⟩ <;> cases hactivity <;> assumption
  | committing hrefreshes _ hops =>
    rcases hops op hop with ⟨v, rfl⟩ | rfl | rfl <;> cases hactivity <;> assumption
  | paying htransfer hrefreshes htransfers _ hops =>
    rcases hops op hop with ⟨v, rfl⟩ | rfl | rfl
    · cases hactivity
      exact hrefreshes
    · cases hactivity
      exact hrefreshes
    · cases op <;> cases hactivity <;> first | exact htransfers | cases htransfer
  | @opening created wrapped hcreated =>
    rcases List.mem_append.1 hop with hop | hop
    · obtain ⟨mint, rfl⟩ := hcreated op hop
      cases hactivity
    · obtain ⟨w, -, rfl⟩ := Option.map_eq_some_iff.1 (Option.mem_toList.1 hop)
      cases hactivity
  | closing w =>
    rw [List.mem_singleton.1 hop] at hactivity
    cases hactivity

theorem allows_of_asking {request : Request} (h : client.Asking request) :
    client.Allows request.instructions := by
  cases h with
  | shares => exact allows_nil
  | reserve => exact allows_nil
  | rent => exact allows_nil
  | commit hrefreshes hreconciles hencoded =>
    refine allows_of_operations hencoded fun op hop activity hactivity => ?_
    simp only [commitOperations, Batch.preamble, List.mem_append, List.mem_map,
      List.mem_singleton] at hop
    rcases hop with (⟨v, -, rfl⟩ | rfl) | rfl <;> cases hactivity <;> exact hrefreshes

theorem allows_of_sends {call : VaultCall} {request : Request} (h : call.Sends client request) :
    client.Allows request.instructions := by
  obtain ⟨asked, plan, batch, instructions, signers, hplan, hbatch, hready, rfl⟩ := h
  obtain ⟨_, hencoded, hrest⟩ := Except.bind_eq_ok_iff.1 hready
  obtain ⟨_, -, hboth⟩ := Except.bind_eq_ok_iff.1 hrest
  cases hboth
  exact allows_of_operations hencoded (VaultCall.lays_of_runs_plan hplan batch hbatch).running

theorem Rereads.asks {after : Client} {exchanges : List Exchange} {outcome : Except Error Unit}
    (h : client.Rereads exchanges outcome after) :
    ∀ exchange ∈ exchanges, ∃ address, exchange.1 = .account address := by
  cases h with
  | replaced hload _ => exact (VaultRecord.keeps_load _ _).asks hload
  | kept hload => exact (VaultRecord.keeps_load _ _).asks hload

theorem asks_of_runs_finish {after : Client} {exchanges : List Exchange}
    {outcome result : ExecutionResult}
    (h : Runs (client.finish outcome) exchanges (result, after)) :
    ∀ exchange ∈ exchanges, ∃ address, exchange.1 = .account address := by
  obtain ⟨reloaded, hreload, -⟩ := runs_reload_of_finish h
  exact (rereads_of_runs_reload hreload).asks

theorem Ends.allows {after : Client} {call : VaultCall} {executed closed : List Exchange}
    {outcome result : ExecutionResult} {reloaded : Except Error Unit}
    (h : client.Ends call executed closed outcome reloaded result after) :
    ∀ exchange ∈ executed ++ closed, client.Allows exchange.1.instructions := by
  intro exchange hmem
  rcases List.mem_append.1 hmem with hmem | hmem
  · rcases VaultCall.asking_or_sends h.ran exchange hmem with hasking | hsends
    · exact allows_of_asking hasking
    · exact allows_of_sends hsends
  · obtain ⟨address, haddress⟩ := h.reread.asks exchange hmem
    rw [haddress]
    exact allows_nil

end Client

/-! ## What is refused -/

theorem Error.Tells.isHalt_eq {place : Nat} {r : Rejection} {e : Error} (h : e.Tells place r) :
    e.isHalt = false := by
  cases h <;> rfl

/-- Before it reads the vault anew, a call fails of a halt only if it asked nothing, and of one for
what it needs; or it was told so. -/
theorem VaultCall.refused_of_runs_execute {client : Client} {call : VaultCall}
    {executed : List Exchange} {failure : ExecutionError} {activity : Activity}
    (hrun : Runs (client.execute (call.plan client)) executed (.error failure))
    (hsource : failure.source = .vaultHalted activity) :
    executed = [] ∧ activity ∈ call.needs client ∧ client.record.account.isHalted activity ∨
    ∃ exchange ∈ executed, Told (.vaultHalted activity) exchange := by
  obtain ⟨planned, asked, later, rfl, hasked, hlater⟩ := Dialogue.runs_bind_iff.1 hrun
  cases planned with
  | error e =>
    obtain ⟨rfl, hfailure⟩ := Dialogue.runs_done_iff.1 hlater
    cases hfailure
    rw [List.append_nil]
    obtain rfl : e = .vaultHalted activity := hsource
    rcases (call.heeds_plan client).fails hasked with
      ⟨hnone, _, hneeds, hhalted, heq⟩ | hspared | htold
    · cases heq
      exact .inl ⟨hnone, hneeds, hhalted⟩
    · cases hspared
    · exact .inr htold
  | ok plan =>
    have hlaid := VaultCall.laidOut_of_runs_plan hasked
    obtain ⟨sent, release, hcourse, -⟩ := ScopedPlan.course_of_runs_send hlaid.sendable hlater
    obtain ⟨⟨place, batch, r, -, htells⟩, -⟩ := hcourse.refused
    have hspared := htells.isHalt_eq
    rw [hsource] at hspared
    cases hspared

theorem Client.Ends.refused {client after : Client} {call : VaultCall}
    {executed closed : List Exchange} {outcome result : ExecutionResult}
    {reloaded : Except Error Unit}
    (h : client.Ends call executed closed outcome reloaded result after)
    {failure : ExecutionError} {activity : Activity} (hresult : result = .error failure)
    (hsource : failure.source = .vaultHalted activity) :
    executed = [] ∧ activity ∈ call.needs client ∧ client.record.account.isHalted activity ∨
    ∃ exchange ∈ executed ++ closed, Told (.vaultHalted activity) exchange := by
  cases outcome with
  | error failed =>
    have hsame := h.failed failed rfl
    rw [hresult] at hsame
    cases hsame
    rcases VaultCall.refused_of_runs_execute h.ran hsource with hrefused | ⟨exchange, hmem, htold⟩
    · exact .inl hrefused
    · exact .inr ⟨exchange, List.mem_append_left _ hmem, htold⟩
  | ok confirmed =>
    cases hreloaded : reloaded with
    | ok =>
      rw [h.finished confirmed rfl hreloaded] at hresult
      cases hresult
    | error e =>
      rw [h.spoiled confirmed e rfl hreloaded] at hresult
      cases hresult
      obtain rfl : e = .vaultHalted activity := hsource
      have hreread := h.reread
      rw [hreloaded] at hreread
      cases hreread with
      | kept hload =>
        rcases (VaultRecord.keeps_load _ _).fails hload with
          ⟨-, hnever⟩ | hspared | ⟨exchange, hmem, htold⟩
        · exact hnever.elim
        · cases hspared
        · exact .inr ⟨exchange, List.mem_append_right _ hmem, htold⟩

/-! ## Other flags -/

namespace Client

/-- The client as if it had read other halt flags. -/
def withFlags (client : Client) (flags : UInt16) : Client :=
  { client with record := { client.record with
      account := { client.record.account with haltFlags := flags } } }

variable {client : Client} {flags : UInt16}

/-- Whether a vault with other flags would be halted for an activity just if it is. -/
def Agrees (client : Client) (flags : UInt16) (activity : Activity) : Prop :=
  (client.withFlags flags).record.account.isHalted activity =
    client.record.account.isHalted activity

/-- Bits without a meaning halt nothing. -/
theorem agrees_of_knownBits
    (h : flags &&& VaultAccount.knownBits = client.record.account.haltBits) (activity : Activity) :
    client.Agrees flags activity := by
  have hbits : (client.withFlags flags).record.account.haltBits =
      client.record.account.haltBits := h
  unfold Agrees VaultAccount.isHalted
  rw [hbits]

theorem Agrees.ensureRunning_eq {activity : Activity} (h : client.Agrees flags activity) :
    (client.withFlags flags).record.ensureRunning [activity] =
      client.record.ensureRunning [activity] := by
  unfold Agrees at h
  simp [VaultRecord.ensureRunning, h]

theorem planRebalance_withFlags (weights : Option Weights)
    (hrefreshes : client.Agrees flags .refreshes) (hreconciles : client.Agrees flags .reconciles) :
    (client.withFlags flags).planRebalance weights = client.planRebalance weights := by
  unfold planRebalance
  rw [hrefreshes.ensureRunning_eq, hreconciles.ensureRunning_eq]
  rfl

theorem ensureTransfers_withFlags (htransfers : client.Agrees flags .transfers)
    (hrefreshes : client.Agrees flags .refreshes) :
    (client.withFlags flags).ensureTransfers = client.ensureTransfers := by
  unfold ensureTransfers
  rw [htransfers.ensureRunning_eq, hrefreshes.ensureRunning_eq]

theorem planDeposit_withFlags (pair : Keypair) (amount : UInt64) (source : Option Key)
    (htransfers : client.Agrees flags .transfers) (hrefreshes : client.Agrees flags .refreshes) :
    (client.withFlags flags).planDeposit pair amount source =
      client.planDeposit pair amount source := by
  unfold planDeposit
  rw [ensureTransfers_withFlags htransfers hrefreshes]
  rfl

theorem planFreeing_withFlags (amount : UInt64)
    (hreconciles : client.record.unallocated < amount → client.Agrees flags .reconciles) :
    (client.withFlags flags).planFreeing amount = client.planFreeing amount := by
  have hsame : (client.withFlags flags).record.unallocated = client.record.unallocated := rfl
  unfold planFreeing
  rw [hsame]
  by_cases hshort : client.record.unallocated < amount
  · rw [if_pos hshort, if_pos hshort, (hreconciles hshort).ensureRunning_eq]
    rfl
  · rw [if_neg hshort, if_neg hshort]

theorem planWithdraw_withFlags (pair : Keypair) (amount : UInt64)
    (htransfers : client.Agrees flags .transfers) (hrefreshes : client.Agrees flags .refreshes)
    (hreconciles : client.record.unallocated < amount → client.Agrees flags .reconciles) :
    (client.withFlags flags).planWithdraw pair amount = client.planWithdraw pair amount := by
  unfold planWithdraw
  rw [ensureTransfers_withFlags htransfers hrefreshes, planFreeing_withFlags amount hreconciles]
  rfl

end Client

/-- Only the flags of what it needs make a difference to a call, up to where it reads the vault
anew. -/
theorem VaultCall.execute_withFlags {client : Client} {flags : UInt16} (call : VaultCall)
    (h : ∀ activity ∈ call.needs client, client.Agrees flags activity) :
    (client.withFlags flags).execute (call.plan (client.withFlags flags)) =
      client.execute (call.plan client) := by
  have hplan : call.plan (client.withFlags flags) = call.plan client := by
    cases call with
    | rebalance weights =>
      have hbatches := Client.planRebalance_withFlags weights (h _ (by simp [needs]))
        (h _ (by simp [needs]))
      simp only [plan, hbatches]
    | deposit pair amount source =>
      exact Client.planDeposit_withFlags pair amount source (h _ (by simp [needs]))
        (h _ (by simp [needs]))
    | withdraw pair amount =>
      refine Client.planWithdraw_withFlags pair amount (h _ (by simp [needs]))
        (h _ (by simp [needs])) fun hshort => h _ ?_
      simp [needs, hshort]
  rw [hplan]
  rfl

/-! ## The law -/

/-- What a call does about the halts of its vault. -/
structure VaultCall.Honours (client : Client) (call : VaultCall) (exchanges : List Exchange)
    (result : ExecutionResult) : Prop where
  /-- Nothing that the vault is halted for is simulated or submitted. -/
  allowed : ∀ exchange ∈ exchanges, client.Allows exchange.1.instructions
  /-- A call is refused for a halt of what it needs, and then simulates and submits nothing; unless
  the ledger itself gave that refusal as its answer. -/
  refused : ∀ failure activity, result = .error failure → failure.source = .vaultHalted activity →
    (activity ∈ call.needs client ∧ client.record.account.isHalted activity ∧
      ∀ exchange ∈ exchanges, ∃ address, exchange.1 = .account address) ∨
    ∃ exchange ∈ exchanges, Told (.vaultHalted activity) exchange
  /-- A withdrawal that the reserve at hand covers does not need reconciles. -/
  covered : ∀ pair amount, call = .withdraw pair amount → amount ≤ client.record.unallocated →
    .reconciles ∉ call.needs client
  /-- Under other flags for what it does not need the call goes the same way, -/
  unneeded : ∀ flags, (∀ activity ∈ call.needs client, client.Agrees flags activity) →
    (client.withFlags flags).execute (call.plan (client.withFlags flags)) =
      client.execute (call.plan client)
  /-- and so it does under other bits without a meaning. -/
  unknown : ∀ flags, flags &&& VaultAccount.knownBits = client.record.account.haltBits →
    (client.withFlags flags).execute (call.plan (client.withFlags flags)) =
      client.execute (call.plan client)

/-- Whatever halt flags were read, and whatever the ledger answers, a call simulates and submits
nothing that the vault is halted for, and is refused for nothing but a halt of what it needs. -/
theorem a_call_honours_the_halts_of_what_it_needs {client after : Client} {call : VaultCall}
    {exchanges : List Exchange} {result : ExecutionResult}
    (hrun : Runs (call.perform client) exchanges (result, after)) :
    call.Honours client exchanges result := by
  obtain ⟨executed, closed, outcome, reloaded, rfl, hends⟩ := Client.ends_of_runs_perform hrun
  refine ⟨hends.allows, ?_, ?_, fun flags => call.execute_withFlags, fun flags hknown => ?_⟩
  · intro failure activity hresult hsource
    rcases hends.refused hresult hsource with ⟨rfl, hneeds, hhalted⟩ | htold
    · exact .inl ⟨hneeds, hhalted, hends.reread.asks⟩
    · exact .inr htold
  · rintro pair amount rfl hcovered
    have hnot : ¬ client.record.unallocated < amount := UInt64.not_lt.2 hcovered
    simp [VaultCall.needs, hnot]
  · exact call.execute_withFlags fun activity _ => Client.agrees_of_knownBits hknown activity

namespace OneVenue

/-- The client when it has read that the vault is halted for reconciles, beside bits without a
meaning. -/
def halted : Client := client.withFlags 0xfff9

theorem runs_halted_withdrawal :
    Runs ((VaultCall.withdraw pair 500).perform halted)
      [⟨.account halted.vault, .error (.transport "closed")⟩]
      (.error (.early (.vaultHalted .reconciles)), halted) := by
  have hplan : Call.Runs (halted.planWithdraw pair 500) [] (.error (.vaultHalted .reconciles)) :=
    .done _
  rw [VaultCall.perform_eq]
  exact Dialogue.runs_bind_iff.2 ⟨_, [], _, rfl,
    Dialogue.runs_bind_iff.2 ⟨_, [], [], rfl, hplan, .done _⟩, .ask (.done _)⟩

theorem a_withdrawal_that_needs_reconciles_is_refused :
    Runs ((VaultCall.withdraw pair 500).perform halted)
      [⟨.account halted.vault, .error (.transport "closed")⟩]
      (.error (.early (.vaultHalted .reconciles)), halted) ∧
    (VaultCall.withdraw pair 500).Honours halted
      [⟨.account halted.vault, .error (.transport "closed")⟩]
      (.error (.early (.vaultHalted .reconciles))) :=
  ⟨runs_halted_withdrawal, a_call_honours_the_halts_of_what_it_needs runs_halted_withdrawal⟩

end OneVenue

end YieldVault
