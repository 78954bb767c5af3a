-- The law of transfers: the instruction that pays a user's capital in or out is handed
-- to the ledger at most once in a call, with the amount that was asked for, behind all
-- that had to be confirmed before it and behind one refresh of every active venue.
import YieldVault.Proofs.Activities
import YieldVault.Proofs.Lifecycles

namespace YieldVault

open Dialogue (Runs)

/-! ## Instructions that transfer -/

namespace Instruction

/-- The names of the instructions that pay capital in or out. -/
def transferNames : List String := ["deposit", "withdraw"]

/-- Whether an instruction opens with the tag of a deposit or of a withdrawal, whichever program it
is for. -/
def isTransfer (i : Instruction) : Bool :=
  transferNames.any fun name => i.data.take 8 == instructionTag name

theorem isTransfer_named {keys : VaultKeys} {name : String} {arguments : Bytes}
    {accounts : List AccountMeta} (hname : name ∈ names) :
    (named keys name arguments accounts).isTransfer = decide (name ∈ transferNames) :=
  does_named hname .transfers

end Instruction

/-- Whether an operation pays capital in or out. -/
def Operation.isTransfer : Operation → Bool
  | .deposit .. => true
  | .withdraw .. => true
  | _ => false

namespace Encoder

variable {encoder : Encoder} {instructions part : List Instruction}

/-- Only a deposit or a withdrawal transfers, and it does by its one instruction. -/
theorem isTransfer_of_mem_operation {op : Operation} {i : Instruction}
    (h : encoder.operation op = .ok part) (hi : i ∈ part) : i.isTransfer = op.isTransfer := by
  have hdoes : i.isTransfer = decide (op.activity = some .transfers) :=
    does_of_mem_operation h hi .transfers
  rw [hdoes]
  cases op <;> rfl

theorem length_of_isTransfer {op : Operation} (hop : op.isTransfer)
    (h : encoder.operation op = .ok part) : part.length = 1 := by
  rw [length_operation h]
  cases op <;> first | rfl | cases hop

theorem countP_operation {op : Operation} (h : encoder.operation op = .ok part) :
    part.countP (·.isTransfer) = if op.isTransfer then 1 else 0 := by
  by_cases htransfer : op.isTransfer
  · rw [if_pos htransfer, ← length_of_isTransfer htransfer h]
    apply List.countP_eq_length.2
    intro i hi
    rw [isTransfer_of_mem_operation h hi]
    exact htransfer
  · rw [if_neg htransfer]
    apply List.countP_eq_zero.2
    intro i hi
    rwa [isTransfer_of_mem_operation h hi]

/-- As many instructions transfer as operations do. -/
theorem countP_operations {ops : List Operation} (h : encoder.operations ops = .ok instructions) :
    instructions.countP (·.isTransfer) = ops.countP (·.isTransfer) := by
  induction ops generalizing instructions with
  | nil =>
    cases h
    rfl
  | cons op rest ih =>
    obtain ⟨part, others, hpart, hothers, rfl⟩ := operations_cons_iff.1 h
    rw [List.countP_append, countP_operation hpart, ih hothers, List.countP_cons, Nat.add_comm]

theorem countP_eq_zero {ops : List Operation} (h : encoder.operations ops = .ok instructions)
    (hops : ∀ op ∈ ops, op.isTransfer = false) : instructions.countP (·.isTransfer) = 0 := by
  rw [countP_operations h, List.countP_eq_zero]
  intro op hop
  rw [hops op hop]
  decide

/-- Behind its refreshes a transfer has the vault's total worked out, and then makes its move. -/
theorem operations_transfer {venues : List Venue} {op : Operation} (hop : op.isTransfer)
    (h : encoder.operations (Batch.preamble venues ++ [op]) = .ok instructions) :
    ∃ beside i, instructions = beside ++ [.consolidate encoder.keys, i] ∧
      encoder.operations (venues.map .refresh) = .ok beside ∧ encoder.operation op = .ok [i] ∧
      (beside ++ [Instruction.consolidate encoder.keys]).countP (·.isTransfer) = 0 := by
  obtain ⟨opening, rest, hopening, hrest, rfl⟩ := operations_append_iff.1 h
  obtain ⟨part, none, hpart, hnone, rfl⟩ := operations_cons_iff.1 hrest
  cases hnone
  obtain ⟨i, rfl⟩ := List.length_eq_one_iff.1 (length_of_isTransfer hop hpart)
  have hquiet : ∀ other ∈ Batch.preamble venues, other.isTransfer = false := by
    intro other hother
    rcases List.mem_append.1 hother with hother | hother
    · obtain ⟨v, -, rfl⟩ := List.mem_map.1 hother
      rfl
    · rw [List.mem_singleton.1 hother]
      rfl
  have hcount := countP_eq_zero hopening hquiet
  obtain ⟨beside, total, hbeside, htotal, rfl⟩ := operations_append_iff.1 hopening
  cases htotal
  exact ⟨beside, i, by simp, hbeside, hpart, hcount⟩

end Encoder

/-! ## What is handed over -/

/-- The instructions that an exchange hands to the ledger, where it submits a batch. -/
def handed : Exchange → List Instruction
  | ⟨.submit instructions _, _⟩ => instructions
  | _ => []

/-- Whether the ledger took the batch that an exchange submits. -/
def Confirmed (exchange : Exchange) : Prop :=
  ∃ instructions signers signature, exchange = ⟨.submit instructions signers, .ok signature⟩

/-- Whether no transfer is handed over in some exchanges. -/
def Silent (exchanges : List Exchange) : Prop :=
  ∀ exchange ∈ exchanges, ∀ i ∈ handed exchange, i.isTransfer = false

theorem Silent.countP_eq_zero {exchanges : List Exchange} (h : Silent exchanges) :
    (exchanges.flatMap handed).countP (·.isTransfer) = 0 := by
  rw [List.countP_eq_zero]
  intro i hi
  obtain ⟨exchange, hexchange, hi⟩ := List.mem_flatMap.1 hi
  simp [h exchange hexchange i hi]

/-- Among exchanges only one hands over a transfer, as its last instruction. -/
structure Sole (before : List Exchange) (exchange : Exchange) (after : List Exchange)
    (i : Instruction) : Prop where
  isTransfer : i.isTransfer
  last : ∃ others, handed exchange = others ++ [i] ∧ ∀ j ∈ others, j.isTransfer = false
  before : Silent before
  after : Silent after

namespace Sole

variable {before after : List Exchange} {exchange : Exchange} {i : Instruction}

theorem countP_le (h : Sole before exchange after i) :
    ((before ++ exchange :: after).flatMap handed).countP (·.isTransfer) ≤ 1 := by
  obtain ⟨others, hhanded, hothers⟩ := h.last
  have hnone : others.countP (·.isTransfer) = 0 := by
    rw [List.countP_eq_zero]
    intro j hj
    simp [hothers j hj]
  have hone : [i].countP (·.isTransfer) ≤ 1 := List.countP_le_length
  rw [List.flatMap_append, List.flatMap_cons, List.countP_append, List.countP_append, hhanded,
    List.countP_append, h.before.countP_eq_zero, h.after.countP_eq_zero, hnone]
  omega

theorem eq_of_mem (h : Sole before exchange after i) {exchange' : Exchange} {j : Instruction}
    (hmem : exchange' ∈ before ++ exchange :: after) (hj : j ∈ handed exchange')
    (htransfer : j.isTransfer) : exchange' = exchange ∧ j = i := by
  have habsurd : ∀ {exchanges}, Silent exchanges → exchange' ∉ exchanges := by
    intro exchanges hsilent hin
    rw [hsilent exchange' hin j hj] at htransfer
    cases htransfer
  rcases List.mem_append.1 hmem with hin | hin
  · exact absurd hin (habsurd h.before)
  · rcases List.mem_cons.1 hin with rfl | hin
    · obtain ⟨others, hhanded, hothers⟩ := h.last
      rw [hhanded] at hj
      rcases List.mem_append.1 hj with hj | hj
      · rw [hothers j hj] at htransfer
        cases htransfer
      · exact ⟨rfl, List.mem_singleton.1 hj⟩
    · exact absurd hin (habsurd h.after)

end Sole

namespace Sent

variable {encoder : Encoder} {keyring : List Keypair} {sent : List Sent} {exchanges : List Exchange}

theorem Reached.encode {s : Sent} {exchange : Exchange} (h : s.Reached encoder keyring exchange) :
    encoder.operations s.batch.operations = .ok (handed exchange) := by
  obtain ⟨instructions, signers, hready, rfl⟩ := h
  obtain ⟨_, hencoded, hrest⟩ := Except.bind_eq_ok_iff.1 hready
  obtain ⟨_, -, hpair⟩ := Except.bind_eq_ok_iff.1 hrest
  cases hpair
  exact hencoded

theorem Reached.confirmed {s : Sent} {exchange : Exchange} (h : s.Reached encoder keyring exchange)
    (htaken : s.Taken) : Confirmed exchange := by
  obtain ⟨instructions, signers, -, rfl⟩ := h
  obtain ⟨signature, hreply⟩ := htaken
  exact ⟨instructions, signers, signature, by rw [hreply]⟩

theorem operations_of_reached (h : List.Forall₂ (Reached encoder keyring) sent exchanges) :
    encoder.operations ((sent.map (·.batch)).flatMap (·.operations)) =
      .ok (exchanges.flatMap handed) := by
  induction h with
  | nil => rfl
  | cons hreached _ ih =>
    rw [List.map_cons, List.flatMap_cons, List.flatMap_cons]
    exact Encoder.operations_append_iff.2 ⟨_, _, hreached.encode, ih, rfl⟩

theorem confirmed_of_taken (h : List.Forall₂ (Reached encoder keyring) sent exchanges)
    (htaken : ∀ s ∈ sent, s.Taken) : ∀ exchange ∈ exchanges, Confirmed exchange := by
  induction h with
  | nil => simp
  | cons hreached _ ih =>
    rw [List.forall_mem_cons] at htaken ⊢
    exact ⟨hreached.confirmed htaken.1, ih htaken.2⟩

theorem silent_of_reached (h : List.Forall₂ (Reached encoder keyring) sent exchanges)
    (hops : ∀ s ∈ sent, ∀ op ∈ s.batch.operations, op.isTransfer = false) : Silent exchanges := by
  intro exchange hexchange i hi
  obtain ⟨s, hs, hreached⟩ := exists_of_mem_reached h hexchange
  have hnone := Encoder.countP_eq_zero hreached.encode (hops s hs)
  simpa using List.countP_eq_zero.1 hnone i hi

/-- What reached the ledger can be told apart as the batches can. -/
theorem forall₂_append_left {first rest : List Sent}
    (h : List.Forall₂ (Reached encoder keyring) (first ++ rest) exchanges) :
    ∃ early late, exchanges = early ++ late ∧
      List.Forall₂ (Reached encoder keyring) first early ∧
      List.Forall₂ (Reached encoder keyring) rest late := by
  induction first generalizing exchanges with
  | nil => exact ⟨[], exchanges, rfl, .nil, h⟩
  | cons s first ih =>
    obtain ⟨exchange, others, hreached, hothers, rfl⟩ := List.forall₂_cons_left_iff.1 h
    obtain ⟨early, late, rfl, hfirst, hrest⟩ := ih hothers
    exact ⟨exchange :: early, late, rfl, .cons hreached hfirst, hrest⟩

end Sent

/-! ## Plans that transfer -/

namespace Batch

theorem flatMap_refreshes (batches : List Batch) (kind : BatchKind) :
    batches.flatMap refreshes = refreshes ⟨kind, batches.flatMap (·.operations), []⟩ := by
  induction batches with
  | nil => rfl
  | cons batch rest ih =>
    rw [List.flatMap_cons, List.flatMap_cons, ih]
    exact List.filterMap_append.symm

theorem refreshes_preamble (kind : BatchKind) (venues : List Venue) {op : Operation}
    (hop : op.isTransfer) : refreshes ⟨kind, preamble venues ++ [op], []⟩ = venues := by
  induction venues with
  | nil => cases op <;> first | rfl | cases hop
  | cons v vs ih => exact congrArg (v :: ·) ih

end Batch

namespace ScopedPlan

/-- A plan that transfers by one operation, behind a refresh of some venues, and by no other. -/
structure Transfers (plan : ScopedPlan) (venues : List Venue) (op : Operation) : Prop where
  main : ∃ ceiling kind, Batch.behindRefresh ceiling kind venues [op] = .ok plan.main
  isTransfer : op.isTransfer
  besides : ∀ batch ∈ plan.before ++ plan.setup.toList ++ plan.closing,
    ∀ other ∈ batch.operations, other.isTransfer = false

theorem transfers_of_layOut {ceiling : Nat} {before main : List Batch} {setup : List Operation}
    {wrapped : Option WrappedAccount} {plan : ScopedPlan} {kind : BatchKind} {venues : List Venue}
    {op : Operation}
    (hbefore : ∀ batch ∈ before, ∀ other ∈ batch.operations, other.isTransfer = false)
    (hsetup : ∀ other ∈ setup, other.isTransfer = false) (hop : op.isTransfer)
    (hmain : Batch.behindRefresh ceiling kind venues [op] = .ok main)
    (h : layOut ceiling before setup main wrapped = .ok plan) : plan.Transfers venues op := by
  obtain ⟨rfl, rfl, -⟩ := layOut_eq_ok h
  refine ⟨⟨ceiling, kind, hmain⟩, hop, ?_⟩
  intro batch hbatch other hother
  simp only [List.mem_append, Option.mem_toList] at hbatch
  rcases hbatch with (hbatch | hbatch) | hbatch
  · exact hbefore batch hbatch other hother
  · obtain rfl := eq_of_mem_setup h hbatch
    rcases List.mem_append.1 hother with hother | hother
    · exact hsetup other hother
    · obtain ⟨w, -, rfl⟩ := Option.map_eq_some_iff.1 (Option.mem_toList.1 hother)
      rfl
  · obtain ⟨w, rfl⟩ := exists_of_mem_closing h hbatch
    rw [List.mem_singleton.1 hother]
    rfl

end ScopedPlan

namespace VaultCall

/-- The operation that a transfer is for: of the amount that was asked for, and for a withdrawal of
the shares that it was said to cost. -/
inductive Moves (client : Client) : VaultCall → Operation → Prop
  | deposit {pair : Keypair} {amount : UInt64} {source : Option Key}
      (wrapped : Option WrappedAccount) :
      Moves client (.deposit pair amount source)
        (.deposit amount (client.depositSource source wrapped) client.shareAccount)
  | withdraw {pair : Keypair} {amount shares : UInt64} (wrapped : Option WrappedAccount)
      (hshares : client.previewWithdraw amount = .ok shares) (hsome : shares ≠ 0) :
      Moves client (.withdraw pair amount)
        (.withdraw shares client.shareAccount
          ((wrapped.map (·.address)).getD client.reserveAccount))

theorem transfers_of_runs_plan {client : Client} {call : VaultCall} {asked : List Exchange}
    {plan : ScopedPlan} (hcall : ∀ weights, call ≠ .rebalance weights)
    (hplan : Call.Runs (call.plan client) asked (.ok plan)) :
    ∃ op, call.Moves client op ∧ plan.Transfers client.activeVenues op := by
  cases call with
  | rebalance weights => exact absurd rfl (hcall weights)
  | deposit pair amount source =>
    obtain ⟨-, -, stored, wrapped, main, -, funded, -, -, hmain, hlaid, -⟩ :=
      Client.runs_planDeposit_iff.1 hplan
    refine ⟨_, .deposit wrapped, ScopedPlan.transfers_of_layOut (by simp) ?_ rfl hmain hlaid⟩
    cases stored <;> simp [Client.shareSetup, Operation.isTransfer]
  | withdraw pair amount =>
    obtain ⟨-, -, shares, before, wrapped, account, setup, main, freed, funded, found, hshares, -,
      hfreed, -, hfound, hmain, hlaid⟩ := Client.runs_planWithdraw_iff.1 hplan
    obtain ⟨rfl, hsetup⟩ := Client.eq_of_runs_destination hfound
    obtain ⟨hpreview, hsome⟩ := Client.sharesToBurn_eq_ok hshares
    refine ⟨_, .withdraw wrapped hpreview hsome,
      ScopedPlan.transfers_of_layOut ?_ ?_ rfl hmain hlaid⟩
    · intro batch hbatch op hop
      rcases Client.runs_planFreeing_iff.1 hfreed with ⟨-, -, _, _, -, -, hpack⟩ | ⟨-, -, rfl⟩
      · rcases Batch.mem_operations_of_pack hpack hbatch hop with ⟨v, -, rfl⟩ | ⟨step, -, rfl⟩ <;>
          rfl
      · cases hbatch
    · intro op hop
      rw [hsetup op hop]
      rfl

end VaultCall

/-! ## On each course -/

/-- Batches are sent up to their last, or not that far. -/
theorem Delivered.split_last {leading : List Batch} {last : Batch} {sent : List Sent}
    (h : Delivered (leading ++ [last]) sent) :
    (∀ s ∈ sent, s.batch ∈ leading) ∧ (∃ s ∈ sent, ¬ s.Taken) ∨
    ∃ earlier reply, sent = earlier ++ [⟨last, reply⟩] ∧ earlier.map (·.batch) = leading ∧
      ∀ s ∈ earlier, s.Taken := by
  induction leading generalizing sent with
  | nil =>
    obtain ⟨reply, rfl⟩ := h.single
    exact .inr ⟨[], reply, rfl, rfl, by simp⟩
  | cons batch leading ih =>
    cases h with
    | refused => exact .inl ⟨by simp, by simp [Sent.Taken]⟩
    | @taken _ _ signature sent h =>
      rcases ih h with ⟨hleading, s, hs, hrefused⟩ | ⟨earlier, reply, rfl, rfl, htaken⟩
      · refine .inl ⟨?_, s, List.mem_cons_of_mem _ hs, hrefused⟩
        intro s' hs'
        rcases List.mem_cons.1 hs' with rfl | hs'
        · exact List.mem_cons_self
        · exact List.mem_cons_of_mem _ (hleading s' hs')
      · refine .inr ⟨⟨batch, .ok signature⟩ :: earlier, reply, rfl, rfl, ?_⟩
        intro s hs
        rcases List.mem_cons.1 hs with rfl | hs
        · exact ⟨signature, rfl⟩
        · exact htaken s hs

theorem ScopedPlan.conclude_eq_ok {confirmed kept : List Confirmation} {main : Except Error Unit}
    {cleanup : Option Error} (h : conclude confirmed main cleanup = .ok kept) : main = .ok () := by
  cases main with
  | ok => rfl
  | error e => cases h

/-- Either the last of the main batches was not sent, and the call failed; or it was, behind all that
goes before it. -/
theorem ScopedPlan.Course.reaches_last {plan : ScopedPlan} {sent release : List Sent}
    {outcome : ExecutionResult} (h : plan.Course sent release outcome) {leading : List Batch}
    {last : Batch} (hmain : plan.main = leading ++ [last]) :
    (∀ s ∈ sent ++ release,
        s.batch ∈ plan.before ++ plan.setup.toList ++ plan.closing ∨ s.batch ∈ leading) ∧
      (∀ confirmed, outcome ≠ .ok confirmed) ∨
    ∃ ahead refreshing reply, sent = ahead ++ refreshing ++ [⟨last, reply⟩] ∧
      ahead.map (·.batch) = plan.before ++ plan.setup.toList ∧
      refreshing.map (·.batch) = leading ∧ (∀ s ∈ ahead ++ refreshing, s.Taken) ∧
      (∀ s ∈ release, s.batch ∈ plan.closing) ∧
      ∀ confirmed, outcome = .ok confirmed → ∃ signature, reply = .ok signature := by
  cases h with
  | refusedBefore hfirst hrefused =>
    refine .inl ⟨?_, by rintro confirmed ⟨⟩⟩
    intro s hs
    rw [List.append_nil] at hs
    simp [hfirst.batch_mem hs]
  | refusedSetup hfirst hok hsecond hrefused =>
    refine .inl ⟨?_, by rintro confirmed ⟨⟩⟩
    intro s hs
    rw [List.append_nil] at hs
    rcases List.mem_append.1 hs with hs | hs
    · simp [hfirst.batch_mem hs]
    · have hsetup := hsecond.batch_mem hs
      simp only [List.mem_append]
      tauto
  | @main first second third release hfirst hok hsecond hsecondok hthird hrelease =>
    rw [hmain] at hthird
    rcases hthird.split_last with ⟨hleading, s, hs, hrefused⟩ | ⟨earlier, reply, rfl, rfl, htaken⟩
    · refine .inl ⟨?_, ?_⟩
      · intro s hs
        simp only [List.mem_append] at hs ⊢
        rcases hs with ((hs | hs) | hs) | hs
        · exact .inl (.inl (.inl (hfirst.batch_mem hs)))
        · exact .inl (.inl (.inr (hsecond.batch_mem hs)))
        · exact .inr (hleading s hs)
        · exact .inl (.inr (hrelease.batch_mem hs))
      · intro confirmed hconfirmed
        exact hrefused (Sent.verdict_eq_ok_iff.1 (conclude_eq_ok hconfirmed) s hs)
    · refine .inr ⟨first ++ second, earlier, reply, by simp, ?_, rfl, ?_, ?_, ?_⟩
      · rw [List.map_append, hfirst.eq_of_verdict_ok hok, hsecond.eq_of_verdict_ok hsecondok]
      · intro s hs
        simp only [List.mem_append] at hs
        rcases hs with (hs | hs) | hs
        · exact Sent.verdict_eq_ok_iff.1 hok s hs
        · exact Sent.verdict_eq_ok_iff.1 hsecondok s hs
        · exact htaken s hs
      · intro s hs
        exact hrelease.batch_mem hs
      · intro confirmed hconfirmed
        exact Sent.verdict_eq_ok_iff.1 (conclude_eq_ok hconfirmed) ⟨last, reply⟩ (by simp)

/-! ## The law -/

/-- An exchange hands over the instruction that a call is for. -/
structure Moved (client : Client) (call : VaultCall) (plan : ScopedPlan)
    (ahead refreshing : List Exchange) (exchange : Exchange) (i : Instruction) : Prop where
  /-- It is of the amount that was asked for. -/
  moves : ∃ op, call.Moves client op ∧ client.encoder.operation op = .ok [i]
  /-- All that frees the reserve, and all that sets accounts up, was handed over ahead of it. -/
  prepared : ∃ sent : List Sent, sent.map (·.batch) = plan.before ++ plan.setup.toList ∧
    List.Forall₂ (Sent.Reached client.encoder plan.keyring) sent ahead
  /-- Then came the main batches, and it is of the last of them. -/
  main : ∃ sent : List Sent, sent.map (·.batch) = plan.main ∧
    List.Forall₂ (Sent.Reached client.encoder plan.keyring) sent (refreshing ++ [exchange])
  /-- What was handed over before was taken. -/
  confirmed : ∀ earlier ∈ ahead ++ refreshing, Confirmed earlier
  /-- The main batches refresh each active venue once. -/
  once : plan.main.flatMap Batch.refreshes = client.activeVenues
  /-- These refreshes all come before it, and the vault's total right before it. -/
  fresh : ∃ beside, handed exchange = beside ++ [.consolidate client.encoder.keys, i] ∧
    client.encoder.operations (client.activeVenues.map .refresh) =
      .ok (refreshing.flatMap handed ++ beside)

namespace ScopedPlan.Transfers

variable {client : Client} {call : VaultCall} {plan : ScopedPlan} {op : Operation}
  {ahead refreshing release : List Sent} {exchanges : List Exchange} {leading : List Batch}
  {last : Batch} {beside : List Venue} {reply : Except Rejection Signature}

theorem refreshes_main (h : plan.Transfers client.activeVenues op) :
    plan.main.flatMap Batch.refreshes = client.activeVenues := by
  obtain ⟨ceiling, kind, hmain⟩ := h.main
  rw [Batch.flatMap_refreshes plan.main kind, Batch.operations_behindRefresh hmain]
  exact Batch.refreshes_preamble kind client.activeVenues h.isTransfer

/-- Where all was sent up to the last of the main batches, this has the instruction that transfers,
and nothing else does. -/
theorem sole (h : plan.Transfers client.activeVenues op) (hmoves : call.Moves client op)
    (hmain : plan.main = leading ++ [last])
    (hlast : last.operations = Batch.preamble beside ++ [op])
    (hbeside : leading.flatMap (·.operations) ++ beside.map .refresh =
      client.activeVenues.map .refresh)
    (hahead : ahead.map (·.batch) = plan.before ++ plan.setup.toList)
    (hrefreshing : refreshing.map (·.batch) = leading)
    (htaken : ∀ s ∈ ahead ++ refreshing, s.Taken)
    (hrelease : ∀ s ∈ release, s.batch ∈ plan.closing)
    (hreached : List.Forall₂ (Sent.Reached client.encoder plan.keyring)
      (ahead ++ refreshing ++ [⟨last, reply⟩] ++ release) exchanges) :
    ∃ early middle exchange late i, exchanges = early ++ middle ++ exchange :: late ∧
      Moved client call plan early middle exchange i ∧
      Sole (early ++ middle) exchange late i ∧
      ∀ signature, reply = .ok signature → Confirmed exchange := by
  obtain ⟨_, late, rfl, hreached, hlate⟩ := Sent.forall₂_append_left hreached
  obtain ⟨_, _, rfl, hreached, hone⟩ := Sent.forall₂_append_left hreached
  obtain ⟨early, middle, rfl, hearly, hmiddle⟩ := Sent.forall₂_append_left hreached
  obtain ⟨exchange, _, hexchange, hnone, rfl⟩ := List.forall₂_cons_left_iff.1 hone
  cases hnone
  have hencoded := hexchange.encode
  rw [hlast] at hencoded
  obtain ⟨inline, i, hhanded, hinline, hi, hothers⟩ :=
    Encoder.operations_transfer h.isTransfer hencoded
  have hmiddleops := Sent.operations_of_reached hmiddle
  rw [hrefreshing] at hmiddleops
  have hrefreshes : ∀ other ∈ leading.flatMap (·.operations) ++ beside.map .refresh,
      other.isTransfer = false := by
    rw [hbeside]
    simp [Operation.isTransfer]
  refine ⟨early, middle, exchange, late, i, by simp, ?_, ⟨?_, ?_, ?_, ?_⟩, ?_⟩
  · refine ⟨⟨op, hmoves, hi⟩, ⟨ahead, hahead, hearly⟩,
      ⟨refreshing ++ [⟨last, reply⟩], ?_, List.rel_append hmiddle (.cons hexchange .nil)⟩,
      Sent.confirmed_of_taken (List.rel_append hearly hmiddle) htaken, h.refreshes_main,
      inline, hhanded, ?_⟩
    · rw [List.map_append, hrefreshing, hmain]
      rfl
    · rw [← hbeside]
      exact Encoder.operations_append_iff.2 ⟨_, _, hmiddleops, hinline, rfl⟩
  · rw [Encoder.isTransfer_of_mem_operation hi (List.mem_singleton_self i)]
    exact h.isTransfer
  · refine ⟨inline ++ [.consolidate client.encoder.keys], by simp [hhanded], ?_⟩
    intro j hj
    simpa using List.countP_eq_zero.1 hothers j hj
  · apply Sent.silent_of_reached (List.rel_append hearly hmiddle)
    intro s hs other hother
    rcases List.mem_append.1 hs with hs | hs
    · have hbatch : s.batch ∈ plan.before ++ plan.setup.toList :=
        hahead ▸ List.mem_map_of_mem hs
      exact h.besides s.batch (List.mem_append_left _ hbatch) other hother
    · have hbatch : s.batch ∈ leading := hrefreshing ▸ List.mem_map_of_mem hs
      exact hrefreshes other
        (List.mem_append_left _ (List.mem_flatMap.2 ⟨s.batch, hbatch, hother⟩))
  · apply Sent.silent_of_reached hlate
    intro s hs other hother
    exact h.besides s.batch (List.mem_append_right _ (hrelease s hs)) other hother
  · intro signature hreply
    exact hexchange.confirmed ⟨signature, hreply⟩

end ScopedPlan.Transfers

/-- In a deposit or a withdrawal, whatever the ledger answers, at most one instruction that pays
capital in or out is ever handed over. It is the one that was asked for, of the amount that was
asked for or of the shares that this was said to cost, and is handed over only once everything ahead
of it was taken: what frees the reserve, what sets accounts up, and refreshes of all active venues
but those that stand before it in its own batch, where the vault's total comes right before it. The
call goes well only if the ledger took it. -/
theorem capital_moves_once_and_on_fresh_values {client after : Client} {call : VaultCall}
    {exchanges : List Exchange} {result : ExecutionResult}
    (hcall : ∀ weights, call ≠ .rebalance weights)
    (hrun : Runs (call.perform client) exchanges (result, after)) :
    ((submissions exchanges).flatMap handed).countP (·.isTransfer) ≤ 1 ∧
    (∀ exchange ∈ submissions exchanges, ∀ i ∈ handed exchange, i.isTransfer →
      ∃ asked rest plan ahead refreshing later, exchanges = asked ++ rest ∧
        Call.Runs (call.plan client) asked (.ok plan) ∧
        submissions exchanges = ahead ++ refreshing ++ exchange :: later ∧
        Moved client call plan ahead refreshing exchange i) ∧
    (∀ confirmed, result = .ok confirmed →
      ∃ exchange ∈ submissions exchanges, Confirmed exchange ∧
        ∃ i ∈ handed exchange, i.isTransfer) ∧
    client.activeVenues.Nodup := by
  obtain ⟨executed, closed, outcome, rfl, -, hclosed, hquiet, hcourse⟩ :=
    VaultCall.course_of_runs_perform hrun
  have hresult : ∀ confirmed, result = .ok confirmed → ∃ kept, outcome = .ok kept := by
    intro confirmed hconfirmed
    cases outcome with
    | ok kept => exact ⟨kept, rfl⟩
    | error e =>
      rw [(Client.reported_of_runs_finish hclosed).2.2 e rfl] at hconfirmed
      cases hconfirmed
  have hnodup : client.activeVenues.Nodup :=
    List.filter_sublist.nodup (List.filter_sublist.nodup (by decide))
  rw [submissions_append, hquiet, List.append_nil]
  rcases hcourse with ⟨e, -, hnone, rfl⟩ |
    ⟨plan, asked, later, sent, release, rfl, hplan, hcourse, hreached⟩
  · rw [hnone]
    refine ⟨by simp, by simp, ?_, hnodup⟩
    intro confirmed hconfirmed
    obtain ⟨kept, ⟨⟩⟩ := hresult confirmed hconfirmed
  · obtain ⟨op, hmoves, htransfers⟩ := VaultCall.transfers_of_runs_plan hcall hplan
    obtain ⟨ceiling, kind, hmain⟩ := htransfers.main
    obtain ⟨leading, last, beside, hlayers, -, -, hlast, hbeside⟩ :=
      Batch.layers_of_behindRefresh hmain
    rcases hcourse.reaches_last hlayers with ⟨hunsent, hfailed⟩ |
      ⟨ahead, refreshing, reply, rfl, hahead, hrefreshing, htaken, hrelease, hok⟩
    · have hsilent : Silent (submissions (asked ++ later)) := by
        apply Sent.silent_of_reached hreached
        intro s hs other hother
        rcases hunsent s hs with hbatch | hbatch
        · exact htransfers.besides s.batch hbatch other hother
        · have hmem : other ∈ client.activeVenues.map .refresh := by
            rw [← hbeside]
            exact List.mem_append_left _ (List.mem_flatMap.2 ⟨s.batch, hbatch, hother⟩)
          obtain ⟨v, -, rfl⟩ := List.mem_map.1 hmem
          rfl
      refine ⟨by rw [hsilent.countP_eq_zero]; omega, ?_, ?_, hnodup⟩
      · intro exchange hexchange i hi htransfer
        rw [hsilent exchange hexchange i hi] at htransfer
        cases htransfer
      · intro confirmed hconfirmed
        obtain ⟨kept, hkept⟩ := hresult confirmed hconfirmed
        exact absurd hkept (hfailed kept)
    · obtain ⟨early, middle, exchange, late, i, hsplit, hmoved, hsole, hconfirmed⟩ :=
        htransfers.sole hmoves hlayers hlast hbeside hahead hrefreshing htaken hrelease hreached
      obtain ⟨others, hhanded, -⟩ := hsole.last
      rw [hsplit]
      refine ⟨hsole.countP_le, ?_, ?_, hnodup⟩
      · intro exchange' hmem j hj htransfer
        obtain ⟨rfl, rfl⟩ := hsole.eq_of_mem hmem hj htransfer
        exact ⟨asked, later ++ closed, plan, early, middle, late, by simp, hplan, rfl, hmoved⟩
      · intro confirmed hconfirmedresult
        obtain ⟨kept, hkept⟩ := hresult confirmed hconfirmedresult
        obtain ⟨signature, hreply⟩ := hok kept hkept
        exact ⟨exchange, by simp, hconfirmed signature hreply, i, by simp [hhanded],
          hsole.isTransfer⟩

namespace NativeVault

open OneVenue (handle pair signature insufficient)

/-- What the refused deposit hands over last. -/
def depositing : Instruction :=
  .deposit client.encoder.keys client.payer pair.address client.shareAccount 500

def refusing : Exchange :=
  ⟨.submit [.consolidate client.encoder.keys, depositing] [], .error insufficient⟩

theorem a_refused_deposit_was_tried_once :
    (∀ weights, VaultCall.deposit pair 500 none ≠ .rebalance weights) ∧
    Runs ((VaultCall.deposit pair 500 none).perform client) exchanges (outcome, client) ∧
    ((submissions exchanges).flatMap handed).countP (·.isTransfer) ≤ 1 ∧
    (refusing ∈ submissions exchanges ∧ depositing ∈ handed refusing ∧ depositing.isTransfer ∧
      ∃ asked rest plan ahead refreshing later, exchanges = asked ++ rest ∧
        Call.Runs ((VaultCall.deposit pair 500 none).plan client) asked (.ok plan) ∧
        submissions exchanges = ahead ++ refreshing ++ refusing :: later ∧
        Moved client (.deposit pair 500 none) plan ahead refreshing refusing depositing) ∧
    (∀ confirmed, outcome = .ok confirmed →
      ∃ exchange ∈ submissions exchanges, Confirmed exchange ∧
        ∃ i ∈ handed exchange, i.isTransfer) ∧
    client.activeVenues.Nodup := by
  have hcall : ∀ weights, VaultCall.deposit pair 500 none ≠ .rebalance weights := by
    rintro weights ⟨⟩
  have hmem : refusing ∈ submissions exchanges :=
    List.mem_filter.2 ⟨by simp [exchanges, sending, refusing, depositing], rfl⟩
  have hhanded : depositing ∈ handed refusing := by simp [refusing, handed]
  have htransfer : depositing.isTransfer := Instruction.isTransfer_named (by decide)
  obtain ⟨hcount, hmoved, hok, hnodup⟩ :=
    capital_moves_once_and_on_fresh_values hcall runs_refused_deposit
  exact ⟨hcall, runs_refused_deposit, hcount,
    ⟨hmem, hhanded, htransfer, hmoved refusing hmem depositing hhanded htransfer⟩, hok, hnodup⟩

end NativeVault

end YieldVault
