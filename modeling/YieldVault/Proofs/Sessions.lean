-- The laws of sessions: a client is opened on a vault once, and then reloaded and
-- called any number of times. What it was wired to and its ceiling stay; only the
-- record that it last read is replaced.
import YieldVault.Proofs.Reports

namespace YieldVault

/-! ## Wiring -/

namespace Deployment

variable {deployment : Deployment} {account : VaultAccount} {handles : VenueMap Handle}

theorem venue_of_adapter? {v : Venue} {adapter : Adapter} (h : deployment.adapter? v = some adapter) :
    adapter.venue = v := by
  simpa using List.find?_some h

theorem wire_eq_ok (h : deployment.wire account = .ok handles) :
    handles = PerVenue.ofFn fun v =>
      if account.isEnabled v then deployment.handle? account v else none := by
  unfold wire at h
  split at h
  · cases h
  · cases h
    rfl

theorem venue_of_wire (h : deployment.wire account = .ok handles) {v : Venue} {handle : Handle}
    (hv : handles.get? v = some handle) : handle.adapter.venue = v := by
  rw [wire_eq_ok h, VenueMap.get?_ofFn] at hv
  by_cases henabled : account.isEnabled v
  · rw [if_pos henabled] at hv
    obtain ⟨adapter, hadapter, rfl⟩ := Option.map_eq_some_iff.1 hv
    exact venue_of_adapter? hadapter
  · rw [if_neg henabled] at hv
    cases hv

end Deployment

/-! ## Opening -/

theorem Call.runs_accountData_iff {address : Key} {exchanges : List Exchange} {data : Bytes} :
    Call.Runs (Call.accountData address) exchanges (.ok data) ↔
      ∃ stored, exchanges = [⟨.account address, .ok (some stored)⟩] ∧ data = stored.data := by
  unfold Call.accountData
  rw [Call.runs_bind_ok_iff]
  constructor
  · rintro ⟨stored, first, rest, rfl, hfirst, hrest⟩
    obtain rfl := Call.runs_account_iff.1 hfirst
    cases stored with
    | none =>
      obtain ⟨-, hnone⟩ := Call.runs_throw_iff.1 hrest
      cases hnone
    | some stored =>
      obtain ⟨rfl, hdata⟩ := Call.runs_pure_iff.1 hrest
      cases hdata
      exact ⟨stored, rfl, rfl⟩
  · rintro ⟨stored, rfl, rfl⟩
    exact ⟨some stored, _, [], rfl, Call.runs_account_iff.2 rfl, Call.runs_pure_iff.2 ⟨rfl, rfl⟩⟩

/-- A vault is read in three questions: its account, the mint of its shares, its reserve account. -/
theorem VaultRecord.runs_load_iff {vault : Key} {version : Nat} {exchanges : List Exchange}
    {record : VaultRecord} :
    Call.Runs (VaultRecord.load vault version) exchanges (.ok record) ↔
      ∃ stored mint reserve account,
        exchanges = [⟨.account vault, .ok (some stored)⟩,
          ⟨.account account.shareMint, .ok (some mint)⟩,
          ⟨.account account.reserveToken, .ok (some reserve)⟩] ∧
        VaultAccount.decode vault stored.data = .ok account ∧
        VaultRecord.assemble vault version account mint.data reserve.data = .ok record := by
  unfold VaultRecord.load
  rw [Call.runs_bind_ok_iff]
  constructor
  · rintro ⟨stored, first, rest, rfl, hfirst, hrest⟩
    obtain rfl := Call.runs_account_iff.1 hfirst
    cases stored with
    | none =>
      obtain ⟨-, hnone⟩ := Call.runs_throw_iff.1 hrest
      cases hnone
    | some stored =>
      obtain ⟨account, hdecoded, hrest⟩ := Call.runs_lift_bind_ok_iff.1 hrest
      obtain ⟨mintData, first, rest, rfl, hmint, hrest⟩ := Call.runs_bind_ok_iff.1 hrest
      obtain ⟨mint, rfl, rfl⟩ := Call.runs_accountData_iff.1 hmint
      obtain ⟨reserveData, first, rest, rfl, hreserve, hrest⟩ := Call.runs_bind_ok_iff.1 hrest
      obtain ⟨reserve, rfl, rfl⟩ := Call.runs_accountData_iff.1 hreserve
      obtain ⟨rfl, hassembled⟩ := Call.runs_lift_iff.1 hrest
      exact ⟨stored, mint, reserve, account, rfl, hdecoded, hassembled⟩
  · rintro ⟨stored, mint, reserve, account, rfl, hdecoded, hassembled⟩
    refine ⟨some stored, [_], _, rfl, Call.runs_account_iff.2 rfl, ?_⟩
    refine Call.runs_lift_bind_ok_iff.2 ⟨account, hdecoded, ?_⟩
    refine Call.runs_bind_ok_iff.2 ⟨mint.data, [_], _, rfl,
      Call.runs_accountData_iff.2 ⟨mint, rfl, rfl⟩, ?_⟩
    refine Call.runs_bind_ok_iff.2 ⟨reserve.data, [_], [], rfl,
      Call.runs_accountData_iff.2 ⟨reserve, rfl, rfl⟩, ?_⟩
    exact Call.runs_lift_iff.2 ⟨rfl, hassembled⟩

namespace Client

open Dialogue (Runs)

variable {payer program vault : Key} {deployment : Deployment} {ceiling : Nat}
  {exchanges : List Exchange}

/-- A client is opened on what it reads first, wired by its deployment. -/
theorem runs_connect_iff {client : Client} :
    Call.Runs (connect payer program vault deployment ceiling) exchanges (.ok client) ↔
      ∃ record handles, Call.Runs (VaultRecord.load vault 1) exchanges (.ok record) ∧
        deployment.wire record.account = .ok handles ∧
        client = ⟨program, vault, payer, handles, ceiling, record⟩ := by
  unfold connect
  rw [Call.runs_bind_ok_iff]
  constructor
  · rintro ⟨record, first, rest, rfl, hload, hrest⟩
    obtain ⟨handles, hwired, hrest⟩ := Call.runs_lift_bind_ok_iff.1 hrest
    obtain ⟨rfl, hclient⟩ := Call.runs_pure_iff.1 hrest
    cases hclient
    exact ⟨record, handles, by rwa [List.append_nil], hwired, rfl⟩
  · rintro ⟨record, handles, hload, hwired, rfl⟩
    refine ⟨record, exchanges, [], (List.append_nil _).symm, hload, ?_⟩
    exact Call.runs_lift_bind_ok_iff.2 ⟨handles, hwired, Call.runs_pure_iff.2 ⟨rfl, rfl⟩⟩

/-! ## What follows -/

/-- What a client can come to by reloads and calls, whatever the ledger answers. -/
inductive Leads (first : Client) : Client → Prop
  | here : Leads first first
  | reload {client after : Client} {exchanges : List Exchange} {outcome : Except Error Unit} :
      Leads first client → Runs client.reload exchanges (outcome, after) → Leads first after
  | call {client after : Client} {call : VaultCall} {exchanges : List Exchange}
      {result : ExecutionResult} :
      Leads first client → Runs (call.perform client) exchanges (result, after) →
      Leads first after

variable {first client after : Client}

/-- A reload replaces the record, and nothing else. -/
theorem eq_of_runs_reload {outcome : Except Error Unit}
    (h : Runs client.reload exchanges (outcome, after)) :
    ∃ record, after = { client with record := record } := by
  obtain ⟨loaded, first, rest, rfl, -, hrest⟩ := Dialogue.runs_bind_iff.1 h
  cases loaded with
  | ok record =>
    obtain ⟨-, hafter⟩ := Dialogue.runs_done_iff.1 hrest
    cases hafter
    exact ⟨record, rfl⟩
  | error e =>
    obtain ⟨-, hafter⟩ := Dialogue.runs_done_iff.1 hrest
    cases hafter
    exact ⟨client.record, rfl⟩

theorem eq_of_runs_perform {call : VaultCall} {result : ExecutionResult}
    (h : Runs (call.perform client) exchanges (result, after)) :
    ∃ record, after = { client with record := record } := by
  rw [VaultCall.perform_eq] at h
  obtain ⟨outcome, executed, closed, -, -, hclosed⟩ := Dialogue.runs_bind_iff.1 h
  obtain ⟨reloaded, hreload, -⟩ := runs_reload_of_finish hclosed
  exact eq_of_runs_reload hreload

/-- Whatever happens to a client, it stays wired as it was opened, under the same ceiling. -/
theorem Leads.eq (h : first.Leads client) : ∃ record, client = { first with record := record } := by
  induction h with
  | here => exact ⟨first.record, rfl⟩
  | reload _ hrun ih =>
    obtain ⟨_, hclient⟩ := ih
    obtain ⟨record, hafter⟩ := eq_of_runs_reload hrun
    exact ⟨record, by rw [hafter, hclient]⟩
  | call _ hrun ih =>
    obtain ⟨_, hclient⟩ := ih
    obtain ⟨record, hafter⟩ := eq_of_runs_perform hrun
    exact ⟨record, by rw [hafter, hclient]⟩

end Client

end YieldVault
