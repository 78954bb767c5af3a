-- The law of wirings: a client is wired, when it is opened, to just the venues that its
-- vault has enabled, each by the adapter of that venue and by the accounts that the
-- vault records for it. It refreshes and reconciles a venue by these accounts ever after.
import YieldVault.Deployment.Reader
import YieldVault.Proofs.Instructions
import YieldVault.Proofs.Transactions

namespace YieldVault

/-! ## Deployments -/

namespace Deployment

variable {deployment other : Deployment} {account : VaultAccount} {v : Venue}

/-- A venue has no adapter but its own. -/
theorem adapter?_eq_some_iff {adapter : Adapter} :
    deployment.adapter? v = some adapter ↔
      adapter ∈ deployment.adapters ∧ adapter.venue = v := by
  constructor
  · intro h
    exact ⟨List.mem_of_find?_eq_some h, venue_of_adapter? h⟩
  · rintro ⟨hmem, rfl⟩
    cases hfound : deployment.adapter? adapter.venue with
    | none => simpa using List.find?_eq_none.1 hfound adapter hmem
    | some first =>
      rw [List.inj_on_of_nodup_map deployment.nodup (List.mem_of_find?_eq_some hfound) hmem
        (venue_of_adapter? hfound)]

theorem isNone_adapter?_iff :
    (deployment.adapter? v).isNone ↔ ¬ ∃ adapter ∈ deployment.adapters, adapter.venue = v := by
  simp only [Option.isNone_iff_eq_none, Option.eq_none_iff_forall_ne_some, ne_eq,
    adapter?_eq_some_iff, not_exists]

/-- The order of the adapters does not tell. -/
theorem adapter?_of_perm (h : other.adapters.Perm deployment.adapters) :
    other.adapter? = deployment.adapter? := by
  funext v
  apply Option.ext
  intro adapter
  rw [adapter?_eq_some_iff, adapter?_eq_some_iff, h.mem_iff]

theorem wire_of_perm (h : other.adapters.Perm deployment.adapters) (account : VaultAccount) :
    other.wire account = deployment.wire account := by
  unfold wire handle?
  rw [adapter?_of_perm h]

/-- A vault is wired where every venue that it has enabled is deployed. -/
theorem exists_wire_iff :
    (∃ handles, deployment.wire account = .ok handles) ↔
      ∀ v ∈ account.enabledVenues, ∃ adapter ∈ deployment.adapters, adapter.venue = v := by
  unfold wire
  split
  · rename_i v hv
    have hmissing : (deployment.adapter? v).isNone := by simpa using List.find?_some hv
    constructor
    · rintro ⟨_, ⟨⟩⟩
    · intro hall
      exact absurd (hall v (List.mem_of_find?_eq_some hv)) (isNone_adapter?_iff.1 hmissing)
  · rename_i hnone
    refine ⟨fun _ v hv => ?_, fun _ => ⟨_, rfl⟩⟩
    by_contra hmissing
    exact List.find?_eq_none.1 hnone v hv (isNone_adapter?_iff.2 hmissing)

end Deployment

/-- Whether a handle is the one of a venue: of the venue's own adapter, and of the accounts that a
vault records for that venue. -/
structure Handle.IsOf (handle : Handle) (deployment : Deployment) (account : VaultAccount)
    (v : Venue) : Prop where
  deployed : handle.adapter ∈ deployment.adapters
  venue : handle.adapter.venue = v
  reserve : handle.reserve = account.reserves.get v
  holding : handle.holding = account.holdings.get v

namespace VaultAccount

theorem reserve_eq (account : VaultAccount) (v : Venue) :
    account.reserve v = account.reserves.get v := by cases v <;> rfl

theorem holding_eq (account : VaultAccount) (v : Venue) :
    account.holding v = account.holdings.get v := by cases v <;> rfl

end VaultAccount

namespace Deployment

variable {deployment : Deployment} {account : VaultAccount} {handles : VenueMap Handle} {v : Venue}

theorem handle?_eq_some_iff {handle : Handle} :
    deployment.handle? account v = some handle ↔ handle.IsOf deployment account v := by
  unfold handle?
  rw [Option.map_eq_some_iff]
  constructor
  · rintro ⟨adapter, hadapter, rfl⟩
    obtain ⟨hmem, hvenue⟩ := adapter?_eq_some_iff.1 hadapter
    exact ⟨hmem, hvenue, account.reserve_eq v, account.holding_eq v⟩
  · obtain ⟨adapter, reserve, holding⟩ := handle
    rintro ⟨hmem, hvenue, rfl, rfl⟩
    rw [← account.reserve_eq v, ← account.holding_eq v]
    exact ⟨adapter, adapter?_eq_some_iff.2 ⟨hmem, hvenue⟩, rfl⟩

/-- A vault is wired to the venues that it has enabled, and to each by its own handle. -/
theorem get?_wire_iff (h : deployment.wire account = .ok handles) {handle : Handle} :
    handles.get? v = some handle ↔ account.isEnabled v ∧ handle.IsOf deployment account v := by
  rw [wire_eq_ok h, VenueMap.get?_ofFn, ← handle?_eq_some_iff]
  by_cases henabled : account.isEnabled v <;> simp [henabled]

theorem contains_wire (h : deployment.wire account = .ok handles) (v : Venue) :
    handles.contains v = account.isEnabled v := by
  unfold VenueMap.contains
  rw [Bool.eq_iff_iff, Option.isSome_iff_exists]
  constructor
  · rintro ⟨handle, hhandle⟩
    exact ((get?_wire_iff h).1 hhandle).1
  · intro henabled
    have hmem : v ∈ account.enabledVenues := List.mem_filter.2 ⟨v.mem_all, henabled⟩
    obtain ⟨adapter, hadapter, hvenue⟩ := exists_wire_iff.1 ⟨handles, h⟩ v hmem
    exact ⟨⟨adapter, _, _⟩, (get?_wire_iff h).2 ⟨henabled, hadapter, hvenue, rfl, rfl⟩⟩

/-! ## Texts -/

end Deployment

/-- The venue that a list is refused for is named a second time, and none before it is. -/
theorem Venue.repeated?_eq_some_iff {seen venues : List Venue} {v : Venue} :
    Venue.repeated? seen venues = some v ↔
      ∃ before after, venues = before ++ v :: after ∧ before.Nodup ∧
        (∀ w ∈ before, w ∉ seen) ∧ (v ∈ before ∨ v ∈ seen) := by
  induction venues generalizing seen with
  | nil => simp [Venue.repeated?]
  | cons first rest ih =>
    by_cases hseen : first ∈ seen
    · rw [Venue.repeated?, if_pos hseen, Option.some.injEq]
      constructor
      · rintro rfl
        exact ⟨[], rest, rfl, .nil, by simp, .inr hseen⟩
      · rintro ⟨before, after, hsplit, -, hnew, -⟩
        cases before with
        | nil => exact (List.cons.inj hsplit).1
        | cons head before =>
          obtain ⟨rfl, -⟩ := List.cons.inj hsplit
          exact absurd hseen (hnew first List.mem_cons_self)
    · rw [Venue.repeated?, if_neg hseen, ih]
      constructor
      · rintro ⟨before, after, rfl, hnodup, hnew, hagain⟩
        refine ⟨first :: before, after, rfl, ?_, ?_, ?_⟩
        · refine List.nodup_cons.2 ⟨fun hmem => ?_, hnodup⟩
          exact hnew first hmem List.mem_cons_self
        · intro w hw
          rcases List.mem_cons.1 hw with rfl | hw
          · exact hseen
          · exact fun hmem => hnew w hw (List.mem_cons_of_mem first hmem)
        · simp only [List.mem_cons] at hagain ⊢
          tauto
      · rintro ⟨before, after, hsplit, hnodup, hnew, hagain⟩
        cases before with
        | nil =>
          obtain ⟨rfl, -⟩ := List.cons.inj hsplit
          simp [hseen] at hagain
        | cons head before =>
          obtain ⟨rfl, rfl⟩ := List.cons.inj hsplit
          obtain ⟨hfirst, hnodup⟩ := List.nodup_cons.1 hnodup
          refine ⟨before, after, rfl, hnodup, fun w hw => ?_, ?_⟩
          · have hold := hnew w (List.mem_cons_of_mem first hw)
            have hother : w ≠ first := fun heq => hfirst (heq ▸ hw)
            simp [hold, hother]
          · simp only [List.mem_cons] at hagain ⊢
            tauto

namespace Deployment

variable {adapters : List Adapter} {made : Deployment}

/-- What is made of a list is the deployment that lists just these adapters. -/
theorem ofList_eq_ok_iff : ofList adapters = .ok made ↔ made.adapters = adapters := by
  unfold ofList
  split
  · rename_i v hv
    have hrepeated : (adapters.map (·.venue)).Nodup → False := by
      intro hnodup
      have hnone := Venue.repeated?_eq_none.2 ⟨hnodup, fun v _ => List.not_mem_nil (a := v)⟩
      rw [hv] at hnone
      cases hnone
    constructor
    · rintro ⟨⟩
    · rintro rfl
      exact (hrepeated made.nodup).elim
  · constructor
    · rintro ⟨⟩
      rfl
    · rintro rfl
      rfl

theorem exists_ofList_iff :
    (∃ made, ofList adapters = .ok made) ↔ adapters.Pairwise fun a b => a.venue ≠ b.venue := by
  simp only [ofList_eq_ok_iff]
  constructor
  · rintro ⟨made, rfl⟩
    exact List.pairwise_map.1 made.nodup
  · intro hdistinct
    exact ⟨⟨adapters, List.pairwise_map.2 hdistinct⟩, rfl⟩

/-- A list is refused for the first adapter that is of a venue of one before it. -/
theorem ofList_eq_error_iff {e : Error} :
    ofList adapters = .error e ↔ ∃ before adapter after,
      adapters = before ++ adapter :: after ∧
      before.Pairwise (fun a b => a.venue ≠ b.venue) ∧
      (∃ first ∈ before, first.venue = adapter.venue) ∧
      e = .config (.configuredTwice adapter.venue) := by
  have hrefused : ofList adapters = .error e ↔ ∃ v,
      Venue.repeated? [] (adapters.map (·.venue)) = some v ∧
        e = .config (.configuredTwice v) := by
    unfold ofList
    split
    · rename_i v hv
      simp [hv, eq_comm]
    · rename_i hnone
      simp [hnone]
  simp only [hrefused, Venue.repeated?_eq_some_iff, List.map_eq_append_iff, List.map_eq_cons_iff]
  constructor
  · rintro ⟨-, ⟨-, -, ⟨before, -, rfl, rfl, adapter, after, rfl, rfl, rfl⟩, hnodup, -, hagain⟩, rfl⟩
    exact ⟨before, adapter, after, rfl, List.pairwise_map.1 hnodup, by simpa using hagain, rfl⟩
  · rintro ⟨before, adapter, after, rfl, hdistinct, hagain, rfl⟩
    exact ⟨_, ⟨_, _, ⟨before, _, rfl, rfl, adapter, after, rfl, rfl, rfl⟩,
      List.pairwise_map.2 hdistinct, by simp, by simpa using hagain⟩, rfl⟩

theorem ofText_of_read {text : String} {adapters : List Adapter}
    (h : Json.readDocument text readAdapters = .ok adapters) : ofText text = ofList adapters := by
  unfold ofText
  rw [h]

end Deployment

/-! ## Instructions about a venue -/

/-- Whether an instruction bears one name of the vault's program and no other, and is handed the
venue's program, the venue's reserve and the vault's holding from a handle, in given places. -/
structure Instruction.Bears (i : Instruction) (name : String) (handle : Handle)
    (program reserve holding : Nat) : Prop where
  named : ∀ other ∈ names, i.data.take 8 = instructionTag other ↔ name = other
  program : i.accounts[program]?.map (·.key) = some handle.adapter.program
  reserve : i.accounts[reserve]?.map (·.key) = some handle.reserve
  holding : i.accounts[holding]?.map (·.key) = some handle.holding

/-- The place of the venue's reserve among the accounts of a refresh. -/
def Venue.reservePlace (v : Venue) : Nat := if v = .jet then 5 else 3

namespace Handle

theorem bears_refresh (handle : Handle) (keys : VaultKeys) :
    (handle.refresh keys).Bears handle.adapter.venue.refreshName handle 2
      handle.adapter.venue.reservePlace 1 := by
  have hnamed : ∀ other ∈ Instruction.names, (handle.refresh keys).data.take 8 =
      instructionTag other ↔ handle.adapter.venue.refreshName = other := by
    intro other hother
    rw [handle.refresh_eq]
    exact Instruction.take_data_named_iff (Instruction.refreshName_mem _) hother
  obtain ⟨adapter, reserve, holding⟩ := handle
  cases adapter <;> exact ⟨hnamed, rfl, rfl, rfl⟩

theorem bears_reconcile (handle : Handle) (keys : VaultKeys) (option : UInt64) :
    (handle.reconcile keys option).Bears handle.adapter.venue.reconcileName handle 4 7 3 := by
  have hnamed : ∀ other ∈ Instruction.names, (handle.reconcile keys option).data.take 8 =
      instructionTag other ↔ handle.adapter.venue.reconcileName = other := by
    intro other hother
    rw [handle.reconcile_eq]
    exact Instruction.take_data_named_iff (Instruction.reconcileName_mem _) hother
  obtain ⟨adapter, reserve, holding⟩ := handle
  cases adapter <;> exact ⟨hnamed, rfl, rfl, rfl⟩

end Handle

/-- How a client is wired to a vault as it was read: by the handle of each venue that is enabled
there, and of no other. It encodes a refresh or a reconcile of such a venue, and of no other, by the
venue's handle and under the venue's name. -/
structure Client.WiredTo (client : Client) (deployment : Deployment) (account : VaultAccount) :
    Prop where
  handles : ∀ v handle, client.handles.get? v = some handle ↔
    account.isEnabled v ∧ handle.IsOf deployment account v
  exact : ∀ v, client.handles.contains v = account.isEnabled v
  refreshes : ∀ v instructions, client.encoder.operation (.refresh v) = .ok instructions ↔
    ∃ handle : Handle, account.isEnabled v ∧ handle.IsOf deployment account v ∧
      instructions = [handle.refresh client.encoder.keys] ∧
      (handle.refresh client.encoder.keys).Bears v.refreshName handle 2 v.reservePlace 1
  reconciles : ∀ v option instructions,
    client.encoder.operation (.reconcile ⟨v, option⟩) = .ok instructions ↔
    ∃ handle : Handle, account.isEnabled v ∧ handle.IsOf deployment account v ∧
      instructions = [handle.reconcile client.encoder.keys option] ∧
      (handle.reconcile client.encoder.keys option).Bears v.reconcileName handle 4 7 3

namespace Encoder

variable {encoder : Encoder} {v : Venue} {instructions : List Instruction}

theorem operation_refresh_iff :
    encoder.operation (.refresh v) = .ok instructions ↔
      ∃ handle, encoder.handles.get? v = some handle ∧
        [handle.refresh encoder.keys] = instructions := by
  unfold operation
  simp only [Except.map_eq_ok_iff, handle_eq_ok_iff]

theorem operation_reconcile_iff {step : ReconcileStep} :
    encoder.operation (.reconcile step) = .ok instructions ↔
      ∃ handle, encoder.handles.get? step.venue = some handle ∧
        [handle.reconcile encoder.keys step.option] = instructions := by
  unfold operation
  simp only [Except.map_eq_ok_iff, handle_eq_ok_iff]

end Encoder

theorem Client.wiredTo_of_wire {client : Client} {deployment : Deployment} {account : VaultAccount}
    (h : deployment.wire account = .ok client.handles) : client.WiredTo deployment account := by
  have hget : ∀ v handle, client.encoder.handles.get? v = some handle ↔
      account.isEnabled v ∧ handle.IsOf deployment account v :=
    fun v handle => Deployment.get?_wire_iff h
  refine ⟨hget, Deployment.contains_wire h, fun v instructions => ?_,
    fun v option instructions => ?_⟩
  · rw [Encoder.operation_refresh_iff]
    constructor
    · rintro ⟨handle, hhandle, rfl⟩
      obtain ⟨henabled, hof⟩ := (hget v handle).1 hhandle
      have hbears := handle.bears_refresh client.encoder.keys
      rw [hof.venue] at hbears
      exact ⟨handle, henabled, hof, rfl, hbears⟩
    · rintro ⟨handle, henabled, hof, rfl, -⟩
      exact ⟨handle, (hget v handle).2 ⟨henabled, hof⟩, rfl⟩
  · rw [Encoder.operation_reconcile_iff]
    constructor
    · rintro ⟨handle, hhandle, rfl⟩
      obtain ⟨henabled, hof⟩ := (hget v handle).1 hhandle
      have hbears := handle.bears_reconcile client.encoder.keys option
      rw [hof.venue] at hbears
      exact ⟨handle, henabled, hof, rfl, hbears⟩
    · rintro ⟨handle, henabled, hof, rfl, -⟩
      exact ⟨handle, (hget v handle).2 ⟨henabled, hof⟩, rfl⟩

/-! ## The law -/

/-- On a vault that can be read a client is opened just where every venue enabled there is deployed,
in whatever order. It holds the handles of just these venues, and goes by them whatever becomes of it
and of the vault's flags: what it encodes about a venue bears the name of that venue, with the
program of the venue's own adapter and the two accounts that the vault had for it at the opening. And
a text that lists adapters is taken for the deployment of these just where no two are of one venue;
else it is refused for the first that is of a venue of one before it. -/
theorem a_client_is_wired_to_the_enabled_venues {payer program vault : Key}
    {deployment : Deployment} {ceiling : Nat} {reading : List Exchange} {record : VaultRecord}
    (hload : Call.Runs (VaultRecord.load vault 1) reading (.ok record)) :
    ((∃ opened, Call.Runs (Client.connect payer program vault deployment ceiling) reading
        (.ok opened)) ↔
      ∀ v ∈ record.account.enabledVenues,
        ∃ adapter ∈ deployment.adapters, adapter.venue = v) ∧
    (∀ opened, Call.Runs (Client.connect payer program vault deployment ceiling) reading
        (.ok opened) →
      opened.record = record ∧
      ∀ client, opened.Leads client → client.WiredTo deployment record.account) ∧
    (∀ other : Deployment, other.adapters.Perm deployment.adapters →
      Client.connect payer program vault other ceiling =
        Client.connect payer program vault deployment ceiling) ∧
    ∀ text adapters, Json.readDocument text Deployment.readAdapters = .ok adapters →
      ((∃ made, Deployment.ofText text = .ok made) ↔
        adapters.Pairwise fun a b => a.venue ≠ b.venue) ∧
      (∀ made, Deployment.ofText text = .ok made → made.adapters = adapters) ∧
      ∀ e, Deployment.ofText text = .error e ↔ ∃ before adapter after,
        adapters = before ++ adapter :: after ∧
        before.Pairwise (fun a b => a.venue ≠ b.venue) ∧
        (∃ first ∈ before, first.venue = adapter.venue) ∧
        e = .config (.configuredTwice adapter.venue) := by
  refine ⟨?_, fun opened hopened => ?_, fun other hperm => ?_, fun text adapters hread => ?_⟩
  · rw [← Deployment.exists_wire_iff]
    constructor
    · rintro ⟨opened, hopened⟩
      obtain ⟨first, handles, hfirst, hwired, -⟩ := Client.runs_connect_iff.1 hopened
      obtain ⟨-, -, ⟨⟩⟩ := Dialogue.runs_unique hload hfirst (rfl : reading ++ [] = reading ++ [])
      exact ⟨handles, hwired⟩
    · rintro ⟨handles, hwired⟩
      exact ⟨_, Client.runs_connect_iff.2 ⟨record, handles, hload, hwired, rfl⟩⟩
  · obtain ⟨first, handles, hfirst, hwired, rfl⟩ := Client.runs_connect_iff.1 hopened
    obtain ⟨-, -, ⟨⟩⟩ := Dialogue.runs_unique hload hfirst (rfl : reading ++ [] = reading ++ [])
    refine ⟨rfl, fun client hleads => ?_⟩
    obtain ⟨later, rfl⟩ := hleads.eq
    apply Client.wiredTo_of_wire
    exact hwired
  · unfold Client.connect
    simp only [Deployment.wire_of_perm hperm]
  · rw [Deployment.ofText_of_read hread]
    exact ⟨Deployment.exists_ofList_iff, fun _ => Deployment.ofList_eq_ok_iff.1,
      fun _ => Deployment.ofList_eq_error_iff⟩

namespace TwoVenues

/-- A vault that has two venues enabled, and other accounts for each. -/
def account : VaultAccount :=
  { OneVenue.account 1000 with
    sourceFlags := Venue.solend.bit ||| Venue.jet.bit
    reserves := ⟨.ofNat 1, .ofNat 2, .ofNat 3⟩
    holdings := ⟨.ofNat 4, .ofNat 5, .ofNat 6⟩ }

def record : VaultRecord := ⟨default, 1, account, 1000, 0⟩

def opening : List Exchange :=
  ⟨.account default, .ok (some ⟨1, account.encode, default⟩)⟩ :: OneVenue.opening.drop 1

def solend : Adapter := .solend ⟨.ofNat 7, default, default, default, default, default, default⟩

def jet : Adapter := .jet ⟨.ofNat 8, default, default, default, default, default, default⟩

def deployment : Deployment := ⟨[jet, solend], by decide⟩

def reordered : Deployment := ⟨[solend, jet], by decide⟩

/-- Of the venues that the vault has enabled one is not deployed. -/
def incomplete : Deployment := ⟨[solend], by decide⟩

theorem runs_load : Call.Runs (VaultRecord.load default 1) opening (.ok record) :=
  VaultRecord.runs_load_iff.2 ⟨_, _, _, account, rfl,
    by simpa using account.decode_encode default [], by decide +kernel⟩

theorem two_venues_are_wired_in_any_order :
    Call.Runs (VaultRecord.load default 1) opening (.ok record) ∧
    (∃ opened, Call.Runs (Client.connect default default default deployment 6) opening
        (.ok opened) ∧
      opened.record = record ∧ ∀ client, opened.Leads client → client.WiredTo deployment account) ∧
    Client.connect default default default reordered 6 =
      Client.connect default default default deployment 6 ∧
    ¬ ∃ opened, Call.Runs (Client.connect default default default incomplete 6) opening
      (.ok opened) := by
  obtain ⟨hopens, hwired, hperm, -⟩ :=
    @a_client_is_wired_to_the_enabled_venues default default default deployment 6 _ _ runs_load
  obtain ⟨opened, hopened⟩ := hopens.2 (by decide)
  refine ⟨runs_load, ⟨opened, hopened, hwired opened hopened⟩, hperm reordered (.swap jet solend []),
    ?_⟩
  rw [(a_client_is_wired_to_the_enabled_venues runs_load).1]
  decide

end TwoVenues

end YieldVault
