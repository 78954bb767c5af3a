-- The law of wrapped accounts: on a vault of the native asset the account of a call
-- is closed if the ledger took the batch that opened it, by the last batch that is
-- sent and by no other, and a closing that fails hides nothing of what came of the
-- call itself.
import YieldVault.Proofs.Amounts
import YieldVault.Proofs.Reports

namespace YieldVault

open Dialogue (Runs)

/-! ## Closed accounts -/

namespace Batch

/-- The accounts that a batch closes. -/
def closes (batch : Batch) : List Key :=
  batch.operations.filterMap fun
    | .unwrap account => some account
    | _ => none

theorem closes_eq_nil {batch : Batch} (h : ∀ account, .unwrap account ∉ batch.operations) :
    batch.closes = [] := by
  refine List.filterMap_eq_nil_iff.2 fun op hop => ?_
  cases op with
  | unwrap account => exact absurd hop (h account)
  | _ => rfl

theorem closes_of_pack {ceiling : Nat} {refreshable : List Venue} {steps : List ReconcileStep}
    {batches : List Batch} (h : pack ceiling refreshable steps = .ok batches) :
    ∀ batch ∈ batches, batch.closes = [] := by
  intro batch hbatch
  refine closes_eq_nil fun account hop => ?_
  rcases mem_operations_of_pack h hbatch hop with ⟨v, -, hv⟩ | ⟨step, -, hstep⟩
  · cases hv
  · cases hstep

theorem closes_of_behindRefresh {ceiling : Nat} {kind : BatchKind} {venues : List Venue}
    {operations : List Operation} {batches : List Batch}
    (h : behindRefresh ceiling kind venues operations = .ok batches)
    (hops : ∀ account, .unwrap account ∉ operations) : ∀ batch ∈ batches, batch.closes = [] := by
  intro batch hbatch
  refine closes_eq_nil fun account hop => ?_
  rcases mem_operations_of_behindRefresh h hbatch hop with ⟨v, -, hv⟩ | hc | hop
  · cases hv
  · cases hc
  · exact hops account hop

end Batch

/-! ## The life of an account -/

/-- What a closing is that was sent in some place and refused. -/
def WrappedAccount.unclosed (w : WrappedAccount) (place : Nat) :
    Except Rejection Signature → Option Error
  | .ok _ => none
  | .error r => some (w.failure .close (.batchRejected place r.code r.reason))

namespace ScopedPlan

/-- The batch that opens a wrapped account, behind what else it creates. -/
def opening (w : WrappedAccount) (created : List Operation) : Batch :=
  ⟨.setup, created ++ [w.acquire], [w.address]⟩

/-- Whether the ledger took the setup, which is sent once all that goes before it was taken. -/
def Opened (plan : ScopedPlan) (sent : List Sent) : Prop :=
  ∃ setup signature, plan.setup = some setup ∧
    sent[plan.before.length]? = some ⟨setup, .ok signature⟩

/-- What a call came to that sent some batches, and then the closing of its wrapped account. -/
structure Settled (plan : ScopedPlan) (w : WrappedAccount) (earlier : List Sent)
    (reply : Except Rejection Signature) (outcome : ExecutionResult) : Prop where
  /-- The planned batches were sent up to the first refusal. -/
  ordered : Delivered plan.planned earlier
  /-- None of them closes an account. -/
  once : ∀ s ∈ earlier, s.batch.closes = []
  /-- A refused batch is what the call failed of; a refused closing is told beside it. -/
  failed : ∀ k batch r, earlier[k]? = some ⟨batch, .error r⟩ →
    outcome = .error ⟨Sent.confirmations (earlier ++ [⟨releasing w, reply⟩]),
      .batchRejected k r.code r.reason, w.unclosed earlier.length reply⟩
  /-- Without one a refused closing is what the call failed of, with all confirmations kept. -/
  unclosed : (∀ s ∈ earlier, s.Taken) → ∀ r, reply = .error r →
    outcome = .error ⟨Sent.confirmations earlier,
      w.failure .close (.batchRejected earlier.length r.code r.reason), none⟩
  finished : (∀ s ∈ earlier, s.Taken) → ∀ signature, reply = .ok signature →
    outcome = .ok (Sent.confirmations (earlier ++ [⟨releasing w, .ok signature⟩]))

/-- The life of a wrapped account in a call that sent some batches. -/
structure Lifecycle (plan : ScopedPlan) (w : WrappedAccount) (sent : List Sent)
    (outcome : ExecutionResult) : Prop where
  /-- The setup opens the account. -/
  opens : ∃ created, plan.setup = some (opening w created)
  /-- An account that was not opened is not closed: all that was sent is of the plan. -/
  unopened : ¬ plan.Opened sent →
    Delivered plan.planned sent ∧ ∀ s ∈ sent, s.batch.closes = []
  /-- A refused setup is a failure to create the account. -/
  uncreated : ∀ setup r, plan.setup = some setup →
    sent[plan.before.length]? = some ⟨setup, .error r⟩ →
    outcome = .error ⟨Sent.confirmations sent,
      w.failure .create (.batchRejected plan.before.length r.code r.reason), none⟩
  /-- An opened account is closed at last. -/
  closed : plan.Opened sent → ∃ earlier reply, sent = earlier ++ [⟨releasing w, reply⟩] ∧
    plan.Settled w earlier reply outcome

/-- A plan that opens a wrapped account in its setup, and closes it by a batch of its own. -/
structure Wraps (plan : ScopedPlan) (w : WrappedAccount) : Prop where
  scope : plan.scope = some (w, releasing w)
  setup : ∃ created, plan.setup = some (opening w created)
  closes : ∀ batch ∈ plan.planned, batch.closes = []

variable {plan : ScopedPlan} {w : WrappedAccount} {first second third : List Sent}
  {reply : Except Rejection Signature} {e : Error}

/-- What is sent of a plan before the closing closes nothing. -/
theorem Wraps.closes_of_delivered {sent : List Sent} (h : plan.Wraps w)
    (hsent : Delivered plan.planned sent) : ∀ s ∈ sent, s.batch.closes = [] := by
  intro s hs
  exact h.closes _ (hsent.batch_mem hs)

/-- The setup has its place behind all that goes before it. -/
theorem getElem?_setup (hfirst : Delivered plan.before first) (hok : Sent.verdict 0 first = .ok ())
    (s : Sent) (later : List Sent) : (first ++ [s] ++ later)[plan.before.length]? = some s := by
  have hlength : first.length = plan.before.length := hfirst.length_eq_of_verdict_ok hok
  rw [← hlength, List.append_assoc, List.getElem?_append_right (Nat.le_refl _), Nat.sub_self]
  rfl

/-! ## On each course -/

/-- Ahead of the setup nothing was opened, and nothing is closed. -/
theorem Wraps.lifecycle_of_refused_before (h : plan.Wraps w) {sent : List Sent}
    {outcome : ExecutionResult} (hfirst : Delivered plan.before sent)
    (hrefused : Sent.verdict 0 sent = .error e) : plan.Lifecycle w sent outcome := by
  have hunsent : sent[plan.before.length]? = none := List.getElem?_eq_none hfirst.length_le
  have hall : Delivered plan.planned sent := by
    rw [planned, List.append_assoc]
    exact hfirst.extend hrefused
  refine ⟨h.setup, fun _ => ⟨hall, h.closes_of_delivered hall⟩, fun setup r _ hat => ?_, ?_⟩
  · rw [hunsent] at hat
    cases hat
  · rintro ⟨_, signature, -, hat⟩
    rw [hunsent] at hat
    cases hat

/-- A setup that was refused opened nothing. -/
theorem Wraps.lifecycle_of_refused_setup (h : plan.Wraps w) (hfirst : Delivered plan.before first)
    (hok : Sent.verdict 0 first = .ok ()) (hsecond : Delivered plan.setup.toList second)
    (hrefused : Sent.verdict first.length second = .error e) :
    plan.Lifecycle w (first ++ second)
      (.error (.after (Sent.confirmations (first ++ second)) (plan.setupFailure e))) := by
  have hall : Delivered plan.planned (first ++ second) := by
    have hverdict : Sent.verdict 0 (first ++ second) = .error e := by
      rw [Sent.verdict_append, hok, Nat.zero_add]
      exact hrefused
    exact (hfirst.append hok hsecond).extend hverdict
  obtain ⟨created, hsetup⟩ := h.setup
  rw [hsetup, Option.toList_some] at hsecond
  obtain ⟨answer, rfl⟩ := hsecond.single
  cases answer with
  | ok signature => cases hrefused
  | error r =>
    cases hrefused
    have hat := getElem?_setup hfirst hok ⟨opening w created, .error r⟩ []
    rw [List.append_nil] at hat
    have hlength : first.length = plan.before.length := hfirst.length_eq_of_verdict_ok hok
    refine ⟨h.setup, fun _ => ⟨hall, h.closes_of_delivered hall⟩, fun setup r' _ hat' => ?_, ?_⟩
    · rw [hat] at hat'
      cases hat'
      rw [setupFailure, h.scope, hlength]
      rfl
    · rintro ⟨_, signature, -, hat'⟩
      rw [hat] at hat'
      cases hat'

/-- The closing that follows the planned batches settles the call. -/
theorem Wraps.settled (h : plan.Wraps w) (hopened : Sent.verdict 0 first = .ok ())
    (hthird : Delivered plan.main third) (hall : Delivered plan.planned (first ++ third)) :
    plan.Settled w (first ++ third) reply
      (conclude (Sent.confirmations (first ++ third ++ [⟨releasing w, reply⟩]))
        (Sent.verdict first.length third)
        (plan.closingFailure (Sent.verdict (first ++ third).length [⟨releasing w, reply⟩]))) := by
  have hclosing : plan.closingFailure (Sent.verdict (first ++ third).length [⟨releasing w, reply⟩]) =
      w.unclosed (first ++ third).length reply := by
    cases reply with
    | ok signature => rfl
    | error r => simp [Sent.verdict, closingFailure, h.scope, WrappedAccount.unclosed]
  have htaken : (∀ s ∈ first ++ third, s.Taken) → Sent.verdict first.length third = .ok () :=
    fun h => Sent.verdict_eq_ok_iff.2 fun s hs => h s (List.mem_append_right first hs)
  rw [hclosing]
  refine ⟨hall, h.closes_of_delivered hall, fun k batch r hk => ?_, fun h r hr => ?_,
    fun h signature hr => ?_⟩
  · have hle : first.length ≤ k := Sent.length_le_of_refused hopened hk
    rw [List.getElem?_append_right hle] at hk
    rw [hthird.verdict_of_refused hk, show first.length + (k - first.length) = k by omega]
    rfl
  · rw [htaken h, hr, Sent.confirmations_refused]
    rfl
  · rw [htaken h, hr]
    rfl

/-- Behind a setup that was taken the main batches are sent, and the closing behind them. -/
theorem Wraps.lifecycle_of_main (h : plan.Wraps w) {release : List Sent}
    (hfirst : Delivered plan.before first) (hok : Sent.verdict 0 first = .ok ())
    (hsecond : Delivered plan.setup.toList second)
    (hsecondok : Sent.verdict first.length second = .ok ()) (hthird : Delivered plan.main third)
    (hrelease : Delivered plan.closing release) :
    plan.Lifecycle w (first ++ second ++ third ++ release)
      (conclude (Sent.confirmations (first ++ second ++ third ++ release))
        (Sent.verdict (first ++ second).length third)
        (plan.closingFailure (Sent.verdict (first ++ second ++ third).length release))) := by
  have hopened : Sent.verdict 0 (first ++ second) = .ok () := by
    rw [Sent.verdict_append, hok, Nat.zero_add]
    exact hsecondok
  have hall : Delivered plan.planned (first ++ second ++ third) :=
    (hfirst.append hok hsecond).append hopened hthird
  obtain ⟨created, hsetup⟩ := h.setup
  rw [hsetup, Option.toList_some] at hsecond
  rw [closing, h.scope, Option.map_some, Option.toList_some] at hrelease
  obtain ⟨answer, rfl⟩ := hsecond.single
  obtain ⟨reply, rfl⟩ := hrelease.single
  cases answer with
  | error r => cases hsecondok
  | ok signature =>
    have hat := getElem?_setup hfirst hok ⟨opening w created, .ok signature⟩
      (third ++ [⟨releasing w, reply⟩])
    rw [← List.append_assoc] at hat
    refine ⟨h.setup, fun hno => ?_, fun setup r _ hat' => ?_, fun _ => ?_⟩
    · exact absurd ⟨_, signature, hsetup, hat⟩ hno
    · rw [hat] at hat'
      cases hat'
    · exact ⟨_, reply, rfl, h.settled hopened hthird hall⟩

/-- On every course the wrapped account is closed if it was opened. -/
theorem Wraps.lifecycle (h : plan.Wraps w) {sent release : List Sent} {outcome : ExecutionResult}
    (hcourse : plan.Course sent release outcome) :
    plan.Lifecycle w (sent ++ release) outcome := by
  cases hcourse with
  | refusedBefore hfirst hrefused =>
    rw [List.append_nil]
    exact h.lifecycle_of_refused_before hfirst hrefused
  | refusedSetup hfirst hok hsecond hrefused =>
    rw [List.append_nil]
    exact h.lifecycle_of_refused_setup hfirst hok hsecond hrefused
  | main hfirst hok hsecond hsecondok hthird hrelease =>
    exact h.lifecycle_of_main hfirst hok hsecond hsecondok hthird hrelease

/-! ## Plans that wrap -/

/-- A plan laid out around a wrapped account opens it and closes it. -/
theorem wraps_of_layOut {ceiling : Nat} {before main : List Batch} {setup : List Operation}
    (hbefore : ∀ batch ∈ before, batch.closes = []) (hmain : ∀ batch ∈ main, batch.closes = [])
    (hsetup : ∀ account, .unwrap account ∉ setup)
    (h : layOut ceiling before setup main (some w) = .ok plan) : plan.Wraps w := by
  obtain ⟨rfl, rfl, hscope, hopening, -⟩ := layOut_eq_ok h
  have hplansetup : plan.setup = some (opening w setup) := by
    rcases hopening with ⟨hnone, -⟩ | hsome
    · simp [acquired] at hnone
    · exact hsome
  refine ⟨hscope, ⟨setup, hplansetup⟩, fun batch hbatch => ?_⟩
  rw [planned, hplansetup, Option.toList_some] at hbatch
  simp only [List.mem_append, List.mem_singleton] at hbatch
  rcases hbatch with (hbatch | rfl) | hbatch
  · exact hbefore batch hbatch
  · refine Batch.closes_eq_nil fun account hop => ?_
    rcases List.mem_append.1 hop with hop | hop
    · exact hsetup account hop
    · cases List.mem_singleton.1 hop
  · exact hmain batch hbatch

end ScopedPlan

theorem WrappedAccount.fund?_eq_ok {pair : Keypair} {rent amount : UInt64} {w : WrappedAccount}
    (h : fund? pair rent amount = .ok w) :
    w.pair = pair ∧ w.lamports.toNat = rent.toNat + amount.toNat := by
  obtain ⟨lamports, hlamports, rfl⟩ := Except.map_eq_ok_iff.1 h
  exact ⟨rfl, amount?_eq_ok.1 hlamports⟩

namespace VaultCall

/-- What a call wraps where the reserve is the native asset: the pair of its account, and the
amount that goes in beside the rent. -/
def wraps : VaultCall → Option (Keypair × UInt64)
  | rebalance _ => none
  | deposit pair amount _ => some (pair, amount)
  | withdraw pair _ => some (pair, 0)

/-- On a vault of the native asset the plan of a transfer wraps its amount beside the rent. -/
theorem wraps_of_runs_plan {client : Client} {call : VaultCall} {pair : Keypair} {amount : UInt64}
    {asked : List Exchange} {plan : ScopedPlan}
    (hnative : client.record.denomination = Key.nativeMint) (hcall : call.wraps = some (pair, amount))
    (hplan : Call.Runs (call.plan client) asked (.ok plan)) :
    ∃ rent w, (⟨.rent Token.accountWidth, .ok rent⟩ : Exchange) ∈ asked ∧ w.pair = pair ∧
      w.lamports.toNat = rent.toNat + amount.toNat ∧ plan.Wraps w := by
  cases call with
  | rebalance weights => cases hcall
  | deposit pair amount source =>
    cases hcall
    obtain ⟨-, -, stored, wrapped, main, -, funded, rfl, hfunded, hmain, hlaid, -⟩ :=
      Client.runs_planDeposit_iff.1 hplan
    obtain ⟨rent, w, rfl, hw, rfl⟩ := (Client.runs_wrapped?_iff hnative).1 hfunded
    obtain ⟨hpair, hlamports⟩ := WrappedAccount.fund?_eq_ok hw
    refine ⟨rent, w, by simp, hpair, hlamports, ScopedPlan.wraps_of_layOut (by simp) ?_ ?_ hlaid⟩
    · exact Batch.closes_of_behindRefresh hmain (by simp)
    · cases stored <;> simp [Client.shareSetup]
  | withdraw pair amount =>
    cases hcall
    obtain ⟨-, -, shares, before, wrapped, account, setup, main, freed, funded, found, -, rfl,
      hfreed, hfunded, hfound, hmain, hlaid⟩ := Client.runs_planWithdraw_iff.1 hplan
    obtain ⟨rent, w, rfl, hw, rfl⟩ := (Client.runs_wrapped?_iff hnative).1 hfunded
    obtain ⟨hpair, hlamports⟩ := WrappedAccount.fund?_eq_ok hw
    obtain ⟨-, hfound⟩ := Call.runs_pure_iff.1 hfound
    cases hfound
    refine ⟨rent, w, by simp, hpair, hlamports, ScopedPlan.wraps_of_layOut ?_ ?_ (by simp) hlaid⟩
    · rcases Client.runs_planFreeing_iff.1 hfreed with ⟨-, -, _, _, -, -, hpack⟩ | ⟨-, -, rfl⟩
      · exact Batch.closes_of_pack hpack
      · simp
    · exact Batch.closes_of_behindRefresh hmain (by simp)

end VaultCall

/-! ## The law -/

/-- A transfer on a vault of the native asset either could not be planned, and sent nothing, or had
its setup open an account that holds its amount beside the rent. If the ledger took the setup, then
the account is closed by the last batch that the call sends and by no other, whatever came of those
between; if it did not, then none is closed. What came of the closing never takes the place of what
the call failed of. -/
theorem a_wrapped_account_is_closed_if_it_was_opened {client after : Client} {call : VaultCall}
    {pair : Keypair} {amount : UInt64} {exchanges : List Exchange} {result : ExecutionResult}
    (hnative : client.record.denomination = Key.nativeMint) (hcall : call.wraps = some (pair, amount))
    (hrun : Runs (call.perform client) exchanges (result, after)) :
    ∃ executed closed outcome, exchanges = executed ++ closed ∧
      Runs (client.execute (call.plan client)) executed outcome ∧
      Runs (client.finish outcome) closed (result, after) ∧
      ((submissions exchanges = [] ∧ ∃ e, outcome = .error (.early e)) ∨
      ∃ plan asked later rent w sent, executed = asked ++ later ∧
        Call.Runs (call.plan client) asked (.ok plan) ∧
        (⟨.rent Token.accountWidth, .ok rent⟩ : Exchange) ∈ asked ∧ w.pair = pair ∧
        w.lamports.toNat = rent.toNat + amount.toNat ∧
        List.Forall₂ (Sent.Reached client.encoder plan.keyring) sent (submissions exchanges) ∧
        plan.Lifecycle w sent outcome) := by
  obtain ⟨executed, closed, outcome, rfl, hexecuted, hclosed, hquiet, hcourse⟩ :=
    VaultCall.course_of_runs_perform hrun
  have hsame : submissions (executed ++ closed) = submissions executed := by
    rw [submissions_append, hquiet, List.append_nil]
  refine ⟨executed, closed, outcome, rfl, hexecuted, hclosed, ?_⟩
  rcases hcourse with ⟨e, -, hnone, rfl⟩ |
    ⟨plan, asked, later, sent, release, rfl, hplan, hcourse, hreached⟩
  · exact .inl ⟨by rw [hsame, hnone], e, rfl⟩
  · obtain ⟨rent, w, hrent, hpair, hlamports, hwraps⟩ :=
      VaultCall.wraps_of_runs_plan hnative hcall hplan
    refine .inr ⟨plan, asked, later, rent, w, sent ++ release, rfl, hplan, hrent, hpair, hlamports,
      ?_, hwraps.lifecycle hcourse⟩
    rwa [hsame]

/-! ## A deposit that is refused

A vault of the native asset under a ceiling of two instructions: the setup of a deposit is one
batch, the refresh of the one venue another, the deposit a third. The ledger takes the first two,
refuses the deposit, and then the closing too. -/

namespace NativeVault

open OneVenue (handle pair signature insufficient)

def account : VaultAccount := { OneVenue.account 1000 with reserveMint := Key.nativeMint }

def client : Client :=
  { OneVenue.client with ceiling := 2, record := ⟨default, 1, account, 1000, 0⟩ }

def wrapped : WrappedAccount := ⟨pair, 2039780⟩

/-- Why the ledger does not close the account. -/
def unclosable : Rejection := ⟨none, "account is frozen"⟩

def plan : ScopedPlan where
  before := []
  setup := some (ScopedPlan.opening wrapped [])
  main := [⟨.refresh, [.refresh .solend], []⟩,
    ⟨.deposit, [.consolidate, .deposit 500 pair.address client.shareAccount], []⟩]
  scope := some (wrapped, ScopedPlan.releasing wrapped)

def asked : List Exchange :=
  [⟨.account client.shareAccount, .ok (some ⟨1, [], default⟩)⟩,
   ⟨.rent Token.accountWidth, .ok 2039280⟩]

def sending : List Exchange :=
  [⟨.submit [.createAccount client.payer pair.address 2039780 Token.accountWidth Key.tokenProgram,
      .initializeHolding pair.address Key.nativeMint client.payer] [pair], .ok signature⟩,
   ⟨.submit [handle.refresh client.encoder.keys] [], .ok signature⟩,
   ⟨.submit [.consolidate client.encoder.keys,
      .deposit client.encoder.keys client.payer pair.address client.shareAccount 500] [],
    .error insufficient⟩,
   ⟨.submit [.closeHolding pair.address client.payer client.payer] [], .error unclosable⟩]

def reading : List Exchange := [⟨.account client.vault, .error (.transport "closed")⟩]

def outcome : ExecutionResult :=
  .error ⟨[⟨0, .setup, signature⟩, ⟨1, .refresh, signature⟩],
    .batchRejected 2 insufficient.code insufficient.reason,
    some (wrapped.failure .close (.batchRejected 3 unclosable.code unclosable.reason))⟩

theorem runs_planDeposit : Call.Runs (client.planDeposit pair 500 none) asked (.ok plan) := by
  have hvenues : client.activeVenues = [.solend] := rfl
  have hceiling : client.ceiling = 2 := rfl
  have hmain : Batch.behindRefresh client.ceiling .deposit client.activeVenues
      [.deposit 500 pair.address client.shareAccount] = .ok plan.main := by
    simp [hvenues, hceiling, Batch.behindRefresh, Batch.pieces, Operation.total,
      Operation.operands, Batch.single, Batch.preamble, Batch.operands, Batch.isRefreshedFirst,
      Batch.refreshedFirst, bind, Except.bind, pure, Except.pure, plan]
  have hwrapped : Call.Runs (client.wrapped? pair 500) (asked.drop 1) (.ok (some wrapped)) :=
    (Client.runs_wrapped?_iff rfl).2 ⟨2039280, wrapped, rfl, rfl, rfl⟩
  exact Client.runs_planDeposit_iff.2 ⟨by decide, rfl, some ⟨1, [], default⟩, some wrapped,
    plan.main, 500, asked.drop 1, rfl, hwrapped, hmain, rfl, rfl⟩

def exchanges : List Exchange := asked ++ sending ++ reading

theorem runs_refused_deposit :
    Runs ((VaultCall.deposit pair 500 none).perform client) exchanges (outcome, client) := by
  have hsend : Runs (plan.send client.encoder) sending outcome :=
    .ask (.ask (.ask (.ask (.done _))))
  have hfinish : Runs (client.finish outcome) reading (outcome, client) := .ask (.done _)
  rw [VaultCall.perform_eq]
  exact Dialogue.runs_bind_iff.2 ⟨outcome, asked ++ sending, _, rfl,
    Dialogue.runs_bind_iff.2 ⟨.ok plan, asked, _, rfl, runs_planDeposit, hsend⟩, hfinish⟩

theorem a_refused_deposit_closes_its_account :
    client.record.denomination = Key.nativeMint ∧
    (VaultCall.deposit pair 500 none).wraps = some (pair, 500) ∧
    Runs ((VaultCall.deposit pair 500 none).perform client) exchanges (outcome, client) ∧
    ∃ executed closed result, exchanges = executed ++ closed ∧
      Runs (client.execute ((VaultCall.deposit pair 500 none).plan client)) executed result ∧
      Runs (client.finish result) closed (outcome, client) ∧
      ((submissions exchanges = [] ∧ ∃ e, result = .error (.early e)) ∨
      ∃ plan asked later rent w sent, executed = asked ++ later ∧
        Call.Runs ((VaultCall.deposit pair 500 none).plan client) asked (.ok plan) ∧
        (⟨.rent Token.accountWidth, .ok rent⟩ : Exchange) ∈ asked ∧ w.pair = pair ∧
        w.lamports.toNat = rent.toNat + UInt64.toNat 500 ∧
        List.Forall₂ (Sent.Reached client.encoder plan.keyring) sent (submissions exchanges) ∧
        plan.Lifecycle w sent result) :=
  ⟨rfl, rfl, runs_refused_deposit,
    a_wrapped_account_is_closed_if_it_was_opened rfl rfl runs_refused_deposit⟩

end NativeVault

end YieldVault
