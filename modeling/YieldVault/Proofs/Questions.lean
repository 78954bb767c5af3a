-- The law of questions: what a plan may ask, and what it may fail of. On account of a
-- halt it fails before it has asked anything; of what it fails later it is told by the
-- ledger, or it is something else. A plan asks nothing that sends a batch.
import YieldVault.Proofs.Amounts
import YieldVault.Proofs.Dialogues
import YieldVault.Proofs.Operands
import YieldVault.Proofs.Readings

namespace YieldVault

/-! ## Calls that keep to something -/

/-- Whether a question was answered with an error. -/
def Told (e : Error) : Exchange → Prop
  | ⟨.account _, reply⟩ => reply = .error e
  | ⟨.rent _, reply⟩ => reply = .error e
  | ⟨.simulate .., reply⟩ => reply = .error e
  | ⟨.submit .., _⟩ => False

namespace Call

variable {α β : Type}

/-- What a call keeps to, whatever it is told: the questions that it may ask, what it may fail of
while it has asked none, and what it may fail of at any time. An error of the ledger's own may
always stop it. -/
structure Keeps (may : Request → Prop) (early late : Error → Prop) (call : Call α) : Prop where
  asks : ∀ {exchanges outcome}, Runs call exchanges outcome → ∀ exchange ∈ exchanges, may exchange.1
  fails : ∀ {exchanges e}, Runs call exchanges (.error e) →
    exchanges = [] ∧ early e ∨ late e ∨ ∃ exchange ∈ exchanges, Told e exchange

variable {may : Request → Prop} {early late : Error → Prop}

theorem keeps_pure (a : α) : Keeps may early late (pure a : Call α) := by
  constructor
  · intro exchanges outcome hrun
    obtain ⟨rfl, -⟩ := runs_pure_iff.1 hrun
    simp
  · intro exchanges e hrun
    obtain ⟨-, hok⟩ := runs_pure_iff.1 hrun
    cases hok

theorem keeps_lift {result : Except Error α} (h : ∀ e, result = .error e → early e ∨ late e) :
    Keeps may early late (liftM result : Call α) := by
  constructor
  · intro exchanges outcome hrun
    obtain ⟨rfl, -⟩ := runs_lift_iff.1 hrun
    simp
  · intro exchanges e hrun
    obtain ⟨rfl, hfailed⟩ := runs_lift_iff.1 hrun
    rcases h e hfailed with hearly | hlate
    · exact .inl ⟨rfl, hearly⟩
    · exact .inr (.inl hlate)

theorem keeps_throw {e : Error} (h : early e ∨ late e) :
    Keeps may early late (throw e : Call α) := by
  have hlift : Keeps may early late (liftM (.error e : Except Error α) : Call α) := by
    apply keeps_lift
    rintro e ⟨⟩
    exact h
  exact hlift

/-- A single question is all that is asked, and fails of nothing but its answer. -/
theorem keeps_question {call : Call α} {exchange : Except Error α → Exchange}
    (hruns : ∀ {exchanges outcome}, Runs call exchanges outcome ↔ exchanges = [exchange outcome])
    (hmay : ∀ outcome, may (exchange outcome).1) (htold : ∀ e, Told e (exchange (.error e))) :
    Keeps may early late call := by
  constructor
  · intro exchanges outcome hrun
    obtain rfl := hruns.1 hrun
    simpa using hmay outcome
  · intro exchanges e hrun
    obtain rfl := hruns.1 hrun
    exact .inr (.inr ⟨_, List.mem_singleton_self _, htold e⟩)

theorem keeps_account {address : Key} (h : may (.account address)) :
    Keeps may early late (account address) :=
  keeps_question runs_account_iff (fun _ => h) fun _ => rfl

theorem keeps_rent {width : Nat} (h : may (.rent width)) : Keeps may early late (rent width) :=
  keeps_question runs_rent_iff (fun _ => h) fun _ => rfl

theorem keeps_simulate {instructions : List Instruction} {accounts : List Key}
    (h : may (.simulate instructions accounts)) :
    Keeps may early late (simulate instructions accounts) :=
  keeps_question runs_simulate_iff (fun _ => h) fun _ => rfl

/-- What follows a part may have to answer for questions that the part has asked. -/
theorem Keeps.bind {call : Call α} {f : α → Call β} (hcall : Keeps may early late call)
    (hf : ∀ a, Keeps may (fun _ => False) late (f a)) : Keeps may early late (call >>= f) := by
  constructor
  · intro exchanges outcome hrun exchange hmem
    rcases runs_bind_iff.1 hrun with ⟨a, first, rest, rfl, hfirst, hrest⟩ | ⟨e, hfailed, -⟩
    · rcases List.mem_append.1 hmem with hmem | hmem
      · exact hcall.asks hfirst exchange hmem
      · exact (hf a).asks hrest exchange hmem
    · exact hcall.asks hfailed exchange hmem
  · intro exchanges e hrun
    rcases runs_bind_iff.1 hrun with ⟨a, first, rest, rfl, -, hrest⟩ | ⟨e', hfailed, heq⟩
    · rcases (hf a).fails hrest with ⟨-, hnever⟩ | hlate | ⟨exchange, hmem, htold⟩
      · exact hnever.elim
      · exact .inr (.inl hlate)
      · exact .inr (.inr ⟨exchange, List.mem_append_right _ hmem, htold⟩)
    · cases heq
      exact hcall.fails hfailed

/-- A part that asks nothing leaves it open to fail early. -/
theorem Keeps.lift_bind {result : Except Error α} {f : α → Call β}
    (hresult : ∀ e, result = .error e → early e ∨ late e)
    (hf : ∀ a, result = .ok a → Keeps may early late (f a)) :
    Keeps may early late (liftM result >>= f) := by
  cases result with
  | ok a => exact hf a rfl
  | error e => exact keeps_throw (hresult e rfl)

/-- A call that may only ask what sends no batch sends none. -/
theorem Keeps.quiet {call : Call α} (h : Keeps may early late call)
    (hmay : ∀ request, may request → request.submits = false) : call.Quiet :=
  Dialogue.quiet_of_runs fun hrun exchange hmem => hmay _ (h.asks hrun exchange hmem)

end Call

/-! ## What fails of no halt -/

/-- Whether an error refuses a call on account of a halt. -/
def Error.isHalt : Error → Bool
  | .vaultHalted _ => true
  | _ => false

namespace Except

variable {α β : Type} {outcome : Except Error α}

/-- Whether a computation fails of no halt. -/
def Spares (outcome : Except Error α) : Prop := ∀ e, outcome = .error e → e.isHalt = false

theorem spares_ok (a : α) : Spares (.ok a : Except Error α) := by
  rintro e ⟨⟩

theorem spares_error {e : Error} (h : e.isHalt = false) : Spares (.error e : Except Error α) := by
  rintro e ⟨⟩
  exact h

theorem Spares.bind {f : α → Except Error β} (h : Spares outcome) (hf : ∀ a, Spares (f a)) :
    Spares (outcome >>= f) := by
  cases outcome with
  | ok a => exact hf a
  | error e => exact spares_error (h e rfl)

theorem Spares.map (h : Spares outcome) (f : α → β) : Spares (outcome.map f) := by
  cases outcome with
  | ok a => exact spares_ok (f a)
  | error e => exact spares_error (h e rfl)

theorem spares_mapM {γ : Type} {f : γ → Except Error α} (hf : ∀ c, Spares (f c)) (items : List γ) :
    Spares (items.mapM f) := by
  induction items with
  | nil => exact spares_ok []
  | cons c rest ih =>
    rw [List.mapM_cons]
    exact (hf c).bind fun a => ih.bind fun others => spares_ok _

theorem spares_foldlM {γ : Type} {f : α → γ → Except Error α} (hf : ∀ a c, Spares (f a c))
    (items : List γ) (a : α) : Spares (items.foldlM f a) := by
  induction items generalizing a with
  | nil => exact spares_ok a
  | cons c rest ih =>
    rw [List.foldlM_cons]
    exact (hf a c).bind ih

end Except

open YieldVault.Except (Spares spares_ok spares_error)

theorem spares_amount? (n : Nat) : Spares (amount? n) := by
  unfold amount?
  split
  · exact spares_ok _
  · exact spares_error rfl

theorem spares_mulDiv (value numerator denominator : UInt64) (rounding : Rounding) :
    Spares (mulDiv value numerator denominator rounding) := by
  by_cases hd : denominator = 0
  · rw [mulDiv, if_pos hd]
    exact spares_error rfl
  · rw [mulDiv_of_ne_zero rounding hd]
    exact spares_amount? _

theorem Simulation.spares_accepted (s : Simulation) : Spares s.accepted := by
  unfold accepted
  split
  · exact spares_error rfl
  · exact spares_ok _

theorem VaultAccount.spares_decode (address : Key) (data : Bytes) :
    Spares (VaultAccount.decode address data) := by
  intro e h
  obtain ⟨fault, rfl⟩ := accountDecode_of_error address h
  rfl

theorem VaultRecord.spares_assemble (address : Key) (version : Nat) (account : VaultAccount)
    (mintData reserveData : Bytes) :
    Spares (assemble address version account mintData reserveData) := by
  have hmint : Spares (mintSupply account.shareMint mintData) := by
    unfold mintSupply
    cases Token.mintSupply mintData with
    | ok supply => exact spares_ok _
    | error fault => exact spares_error rfl
  have hheld : Spares (heldAmount account.reserveToken reserveData) := by
    unfold heldAmount
    cases Token.heldAmount reserveData with
    | ok amount => exact spares_ok _
    | error fault => exact spares_error rfl
  exact hmint.bind fun supply => hheld.bind fun amount => spares_ok _

/-! ### Instructions -/

theorem Encoder.spares_operations (encoder : Encoder) (ops : List Operation) :
    Spares (encoder.operations ops) := by
  intro e h
  obtain ⟨v, -, rfl⟩ := operations_eq_error_iff.1 h
  rfl

/-! ### Movements -/

theorem AllocationSet.spares_movements (target actual : AllocationSet) :
    Spares (target.movements actual) := by
  unfold movements
  split
  · exact spares_ok _
  · exact spares_error rfl

theorem AllocationSet.spares_rescale (set : AllocationSet) (total total' : UInt64) :
    Spares (set.rescale total total') := by
  have hscaled : Spares (set.values.mapM fun _ v => mulDiv v total' total .floor) :=
    Except.spares_foldlM (fun out entry => (spares_mulDiv _ _ _ _).map _) _ _
  exact hscaled.map _

theorem Projection.spares_afterWithdrawal (p : Projection) (amount : UInt64) :
    Spares (p.afterWithdrawal amount) := by
  unfold afterWithdrawal
  split
  · exact (p.target.spares_rescale _ _).map _
  · exact spares_error rfl

theorem Client.spares_freeingSteps (p : Projection) (amount : UInt64) :
    Spares (freeingSteps p amount) := by
  refine (p.spares_afterWithdrawal amount).bind fun rest => ?_
  refine (rest.target.spares_movements rest.actual).bind fun movements => ?_
  exact Except.spares_mapM (fun m => (spares_amount? _).map _) _

/-! ### Batches -/

namespace Batch

variable (ceiling : Nat)

theorem spares_single (batch : Batch) : Spares (single ceiling batch) := by
  unfold single
  split
  · exact spares_error rfl
  · split
    · exact spares_ok _
    · exact spares_error rfl

theorem spares_packFrom (refreshable : List Venue) (b : Open) (steps : List ReconcileStep) :
    Spares (packFrom ceiling refreshable b steps) := by
  induction steps generalizing b with
  | nil => exact spares_ok _
  | cons step rest ih =>
    unfold packFrom
    split
    · exact spares_error rfl
    · split
      · exact ih _
      · exact (ih _).map _

theorem spares_pack (refreshable : List Venue) (steps : List ReconcileStep) :
    Spares (pack ceiling refreshable steps) := by
  unfold pack
  split
  · exact spares_error rfl
  · exact spares_packFrom ceiling refreshable .empty steps

theorem spares_behindRefresh (kind : BatchKind) (venues : List Venue) (ops : List Operation) :
    Spares (behindRefresh ceiling kind venues ops) := by
  simp only [behindRefresh]
  split
  · exact spares_error rfl
  · exact (spares_single ceiling _).bind fun last => spares_ok _

end Batch

theorem ScopedPlan.spares_layOut (ceiling : Nat) (before main : List Batch) (setup : List Operation)
    (wrapped : Option WrappedAccount) : Spares (layOut ceiling before setup main wrapped) := by
  have hsingle : ∀ batch, Spares (Batch.single ceiling batch) := Batch.spares_single ceiling
  cases wrapped with
  | none =>
    cases setup with
    | nil => exact spares_ok _
    | cons op rest => exact ((hsingle _).map some).bind fun opening => spares_ok _
  | some w =>
    simp only [layOut]
    split
    · exact ((hsingle _).map _).bind fun scope => spares_ok _
    · refine ((hsingle _).map some).bind fun opening => ?_
      exact ((hsingle _).map _).bind fun scope => spares_ok _

theorem Client.spares_rebalanceBatches (client : Client) (weights : Option Weights)
    (movements : List Movement) : Spares (client.rebalanceBatches weights movements) := by
  unfold rebalanceBatches
  split
  · exact spares_ok _
  · refine (Batch.spares_behindRefresh _ _ _ _).bind fun commit => ?_
    exact (Batch.spares_pack _ _ _).bind fun reconciles => spares_ok _

theorem Client.spares_sharesToBurn (client : Client) (amount : UInt64) :
    Spares (client.sharesToBurn amount) := by
  refine (spares_mulDiv _ _ _ _).bind fun shares => ?_
  split
  · exact spares_error rfl
  · exact spares_ok _

/-! ### Parts of a call -/

namespace Call

variable {α β : Type} {may : Request → Prop} {early : Error → Prop} {result : Except Error α}

theorem keeps_of_spares (h : Spares result) :
    Keeps may early (fun e => e.isHalt = false) (liftM result : Call α) := by
  apply keeps_lift
  intro e he
  exact .inr (h e he)

theorem Keeps.spares_bind {f : α → Call β} (h : Spares result)
    (hf : ∀ a, result = .ok a → Keeps may early (fun e => e.isHalt = false) (f a)) :
    Keeps may early (fun e => e.isHalt = false) (liftM result >>= f) := by
  refine .lift_bind ?_ hf
  intro e he
  exact .inr (h e he)

end Call

/-! ## Halted vaults -/

namespace VaultRecord

variable {record : VaultRecord} {activity : Activity}

theorem ensureRunning_eq_ok_iff :
    record.ensureRunning [activity] = .ok () ↔ record.account.isHalted activity = false := by
  cases h : record.account.isHalted activity <;> simp [ensureRunning, h]

theorem halted_of_ensureRunning {e : Error} (he : record.ensureRunning [activity] = .error e) :
    record.account.isHalted activity ∧ e = .vaultHalted activity := by
  cases h : record.account.isHalted activity with
  | false => simp [ensureRunning, h] at he
  | true =>
    simp only [ensureRunning, List.any_cons, h, Bool.true_or, if_true, Except.error.injEq] at he
    exact ⟨rfl, he.symm⟩

end VaultRecord

/-! ## Questions of a plan -/

namespace Client

/-- What a plan may ask: for the payer's own accounts, for what keeps a token account, and for a run
of the commit, where the vault is halted neither for refreshes nor for reconciles. -/
inductive Asking (client : Client) : Request → Prop
  | shares : Asking client (.account client.shareAccount)
  | reserve : Asking client (.account client.reserveAccount)
  | rent : Asking client (.rent Token.accountWidth)
  | commit {weights : Option Weights} {instructions : List Instruction} :
      client.record.account.isHalted .refreshes = false →
      client.record.account.isHalted .reconciles = false →
      client.encoder.operations (commitOperations client.activeVenues weights) = .ok instructions →
      Asking client (.simulate instructions [client.record.address])

theorem Asking.submits_eq {client : Client} {request : Request} (h : client.Asking request) :
    request.submits = false := by
  cases h <;> rfl

/-- What a client refuses a call with that needs some activities. -/
def Refuses (client : Client) (activities : List Activity) (e : Error) : Prop :=
  ∃ activity ∈ activities, client.record.account.isHalted activity ∧ e = .vaultHalted activity

/-- Whether part of a plan asks only what a plan may ask, and fails of no halt once it has asked. -/
abbrev Heeds {α : Type} (client : Client) (early : Error → Prop) (call : Call α) : Prop :=
  call.Keeps client.Asking early fun e => e.isHalt = false

variable {client : Client} {early : Error → Prop}

theorem heeds_project (weights : Option Weights)
    (hrefreshes : client.record.account.isHalted .refreshes = false)
    (hreconciles : client.record.account.isHalted .reconciles = false) :
    client.Heeds early (client.project weights) := by
  refine .spares_bind (Encoder.spares_operations _ _) fun ins hins => ?_
  refine (Call.keeps_simulate (.commit hrefreshes hreconciles hins)).bind fun simulation => ?_
  refine .spares_bind simulation.spares_accepted fun accepted _ => ?_
  split
  · refine .spares_bind (VaultAccount.spares_decode _ _) fun account _ => ?_
    exact Call.keeps_pure _
  · exact Call.keeps_throw (.inr rfl)

theorem heeds_isPresent {address : Key} (h : client.Asking (.account address)) :
    client.Heeds early (isPresent address) :=
  (Call.keeps_account h).bind fun _ => Call.keeps_pure _

theorem heeds_wrapped? (pair : Keypair) (amount : UInt64) :
    client.Heeds early (client.wrapped? pair amount) := by
  unfold wrapped?
  split
  · refine (Call.keeps_rent .rent).bind fun rent => ?_
    have hfunded : Spares (WrappedAccount.fund? pair rent amount) := (spares_amount? _).map _
    exact .spares_bind hfunded fun w _ => Call.keeps_pure _
  · exact Call.keeps_pure _

theorem heeds_destination (wrapped : Option WrappedAccount) :
    client.Heeds early (client.destination wrapped) := by
  cases wrapped with
  | none =>
    refine (heeds_isPresent .reserve).bind fun present => ?_
    split <;> exact Call.keeps_pure _
  | some w => exact Call.keeps_pure _

/-- A guard leaves what follows to a vault that is not halted for the activity. -/
theorem heeds_ensureRunning {α : Type} {activity : Activity} {f : Unit → Call α}
    (hearly : client.record.account.isHalted activity → early (.vaultHalted activity))
    (hf : client.record.account.isHalted activity = false → client.Heeds early (f ())) :
    client.Heeds early (liftM (client.record.ensureRunning [activity]) >>= f) := by
  refine .lift_bind (fun e he => .inl ?_) fun _ hok => ?_
  · obtain ⟨hhalted, rfl⟩ := VaultRecord.halted_of_ensureRunning he
    exact hearly hhalted
  · exact hf (VaultRecord.ensureRunning_eq_ok_iff.1 hok)

theorem heeds_ensureTransfers {α : Type} {f : Unit → Call α}
    (hearly : ∀ activity ∈ [Activity.transfers, .refreshes],
      client.record.account.isHalted activity → early (.vaultHalted activity))
    (hf : client.record.account.isHalted .refreshes = false → client.Heeds early (f ())) :
    client.Heeds early (liftM client.ensureTransfers >>= f) := by
  have hsplit : (liftM client.ensureTransfers >>= f : Call α) =
      liftM (client.record.ensureRunning [.transfers]) >>= fun _ =>
        liftM (client.record.ensureRunning [.refreshes]) >>= f := by
    unfold ensureTransfers
    cases client.record.ensureRunning [.transfers] <;> rfl
  rw [hsplit]
  refine heeds_ensureRunning (hearly .transfers (by simp)) fun _ => ?_
  exact heeds_ensureRunning (hearly .refreshes (by simp)) hf

theorem heeds_planRebalance (weights : Option Weights) :
    client.Heeds (client.Refuses [.refreshes, .reconciles]) (client.planRebalance weights) := by
  refine heeds_ensureRunning (fun h => ⟨.refreshes, by simp, h, rfl⟩) fun hrefreshes => ?_
  refine heeds_ensureRunning (fun h => ⟨.reconciles, by simp, h, rfl⟩) fun hreconciles => ?_
  refine (heeds_project weights hrefreshes hreconciles).bind fun projection => ?_
  refine .spares_bind (AllocationSet.spares_movements _ _) fun movements _ => ?_
  exact Call.keeps_of_spares (client.spares_rebalanceBatches _ _)

theorem quiet_planRebalance (weights : Option Weights) : (client.planRebalance weights).Quiet :=
  (heeds_planRebalance weights).quiet fun _ h => h.submits_eq

theorem heeds_planDeposit (pair : Keypair) (amount : UInt64) (source : Option Key) :
    client.Heeds (client.Refuses [.transfers, .refreshes])
      (client.planDeposit pair amount source) := by
  unfold planDeposit
  split
  · exact .spares_bind (spares_error rfl) fun _ hok => nomatch hok
  · refine heeds_ensureTransfers (fun a ha h => ⟨a, ha, h, rfl⟩) fun _ => ?_
    refine (heeds_isPresent .shares).bind fun present => ?_
    refine (heeds_wrapped? pair amount).bind fun wrapped => ?_
    refine .spares_bind (Batch.spares_behindRefresh _ _ _ _) fun main _ => ?_
    refine .spares_bind (ScopedPlan.spares_layOut _ _ _ _ _) fun plan _ => ?_
    refine .spares_bind (spares_mulDiv _ _ _ _) fun shares _ => ?_
    exact Call.keeps_pure _

theorem heeds_planFreeing (amount : UInt64)
    (hearly : client.record.unallocated < amount →
      client.record.account.isHalted .reconciles → early (.vaultHalted .reconciles))
    (hrefreshes : client.record.account.isHalted .refreshes = false) :
    client.Heeds early (client.planFreeing amount) := by
  unfold planFreeing
  split
  · rename_i hshort
    refine heeds_ensureRunning (hearly hshort) fun hreconciles => ?_
    refine (heeds_project none hrefreshes hreconciles).bind fun projection => ?_
    refine .spares_bind (spares_freeingSteps _ _) fun steps _ => ?_
    exact Call.keeps_of_spares (Batch.spares_pack _ _ _)
  · exact Call.keeps_pure _

theorem heeds_planWithdraw (pair : Keypair) (amount : UInt64)
    (hearly : ∀ activity ∈ [Activity.transfers, .refreshes],
      client.record.account.isHalted activity → early (.vaultHalted activity))
    (hshort : client.record.unallocated < amount →
      client.record.account.isHalted .reconciles → early (.vaultHalted .reconciles)) :
    client.Heeds early (client.planWithdraw pair amount) := by
  unfold planWithdraw
  split
  · exact .spares_bind (spares_error rfl) fun _ hok => nomatch hok
  · refine heeds_ensureTransfers hearly fun hrefreshes => ?_
    refine .spares_bind (client.spares_sharesToBurn _) fun shares _ => ?_
    refine (heeds_planFreeing amount hshort hrefreshes).bind fun before => ?_
    refine (heeds_wrapped? pair 0).bind fun wrapped => ?_
    refine (heeds_destination wrapped).bind fun target => ?_
    refine .spares_bind (Batch.spares_behindRefresh _ _ _ _) fun main _ => ?_
    exact Call.keeps_of_spares (ScopedPlan.spares_layOut _ _ _ _ _)

end Client

/-! ## Questions of a reading -/

/-- A reading asks for accounts only, and fails of no halt. -/
theorem VaultRecord.keeps_load (vault : Key) (version : Nat) :
    (VaultRecord.load vault version).Keeps (fun request => ∃ address, request = .account address)
      (fun _ => False) fun e => e.isHalt = false := by
  have hdata : ∀ address, (Call.accountData address).Keeps
      (fun request => ∃ address, request = .account address) (fun _ => False)
      fun e => e.isHalt = false := by
    intro address
    refine (Call.keeps_account ⟨address, rfl⟩).bind fun stored => ?_
    cases stored with
    | none => exact Call.keeps_throw (.inr rfl)
    | some stored => exact Call.keeps_pure _
  refine (Call.keeps_account ⟨vault, rfl⟩).bind fun stored => ?_
  cases stored with
  | none => exact Call.keeps_throw (.inr rfl)
  | some stored =>
    refine .spares_bind (VaultAccount.spares_decode _ _) fun account _ => ?_
    refine (hdata _).bind fun mintData => (hdata _).bind fun reserveData => ?_
    exact Call.keeps_of_spares (VaultRecord.spares_assemble _ _ _ _ _)

end YieldVault
