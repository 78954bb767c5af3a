-- The law of snapshots: whatever a client is asked for and however the ledger answers,
-- its record is replaced only as a whole, by a reading that went well, and never by an
-- older one. Every call ends with one such reading, whatever came of it.
import YieldVault.Proofs.Transactions

namespace YieldVault

open Dialogue (Runs)

/-! ## Readings of the vault -/

/-- What a reading of the vault comes to, and the client that it leaves. -/
inductive Client.Rereads (client : Client) (exchanges : List Exchange) :
    Except Error Unit → Client → Prop
  /-- The record that was read takes the place of the one before it. -/
  | replaced {record : VaultRecord} :
      Call.Runs (VaultRecord.load client.vault (client.record.version + 1)) exchanges (.ok record) →
      client.record.version < record.version →
      Rereads client exchanges (.ok ()) { client with record := record }
  /-- A reading that fails changes nothing. -/
  | kept {e : Error} :
      Call.Runs (VaultRecord.load client.vault (client.record.version + 1)) exchanges (.error e) →
      Rereads client exchanges (.error e) client

theorem VaultRecord.version_of_runs_load {vault : Key} {version : Nat} {exchanges : List Exchange}
    {record : VaultRecord} (h : Call.Runs (VaultRecord.load vault version) exchanges (.ok record)) :
    record.version = version := by
  obtain ⟨stored, mint, reserve, account, -, -, hassembled⟩ := runs_load_iff.1 h
  obtain ⟨supply, -, hassembled⟩ := Except.bind_eq_ok_iff.1 hassembled
  obtain ⟨unallocated, -, hrecord⟩ := Except.bind_eq_ok_iff.1 hassembled
  cases hrecord
  rfl

namespace Client

variable {client after : Client} {exchanges : List Exchange}

theorem rereads_of_runs_reload {outcome : Except Error Unit}
    (h : Runs client.reload exchanges (outcome, after)) :
    client.Rereads exchanges outcome after := by
  obtain ⟨loaded, first, rest, rfl, hload, hrest⟩ := Dialogue.runs_bind_iff.1 h
  cases loaded with
  | ok record =>
    obtain ⟨rfl, hafter⟩ := Dialogue.runs_done_iff.1 hrest
    cases hafter
    rw [List.append_nil]
    refine .replaced hload ?_
    rw [VaultRecord.version_of_runs_load hload]
    omega
  | error e =>
    obtain ⟨rfl, hafter⟩ := Dialogue.runs_done_iff.1 hrest
    cases hafter
    rw [List.append_nil]
    exact .kept hload

/-- How a call ends that went its own way by some exchanges, and read the vault by those after. -/
structure Ends (client : Client) (call : VaultCall) (executed closed : List Exchange)
    (outcome : ExecutionResult) (reloaded : Except Error Unit) (result : ExecutionResult)
    (after : Client) : Prop where
  ran : Runs (client.execute (call.plan client)) executed outcome
  /-- On its own way it reads no account but the payer's. -/
  own : ∀ address reply, (⟨.account address, reply⟩ : Exchange) ∈ executed →
    address = client.shareAccount ∨ address = client.reserveAccount
  /-- From the reading on it sends nothing. -/
  last : submissions closed = []
  reread : client.Rereads closed reloaded after
  /-- A failure of the call itself is told, whatever came of the reading. -/
  failed : ∀ failure, outcome = .error failure → result = .error failure
  finished : ∀ confirmed, outcome = .ok confirmed → reloaded = .ok () → result = .ok confirmed
  /-- A failed reading is told with all that was confirmed. -/
  spoiled : ∀ confirmed e, outcome = .ok confirmed → reloaded = .error e →
    result = .error ⟨confirmed, e, none⟩

theorem ends_of_runs_perform {call : VaultCall} {result : ExecutionResult}
    (h : Runs (call.perform client) exchanges (result, after)) :
    ∃ executed closed outcome reloaded, exchanges = executed ++ closed ∧
      client.Ends call executed closed outcome reloaded result after := by
  rw [VaultCall.perform_eq] at h
  obtain ⟨outcome, executed, closed, rfl, hexecuted, hclosed⟩ := Dialogue.runs_bind_iff.1 h
  obtain ⟨reloaded, hreload, rfl⟩ := runs_reload_of_finish hclosed
  refine ⟨executed, closed, outcome, reloaded, rfl, hexecuted, ?_,
    (quiet_reload client).submissions_eq_nil hreload, rereads_of_runs_reload hreload, ?_, ?_, ?_⟩
  · intro address reply hmem
    rcases VaultCall.asking_or_sends hexecuted _ hmem with hasking | ⟨_, _, _, _, _, -, -, -, hsend⟩
    · cases hasking with
      | shares => exact .inl rfl
      | reserve => exact .inr rfl
    · cases hsend
  · rintro failure rfl
    rfl
  · rintro confirmed rfl rfl
    rfl
  · rintro confirmed e rfl rfl
    rfl

/-! ## Reads -/

/-- What a client answers by itself. -/
inductive Read
  | totalValue
  | venueValue (venue : Venue)
  | previewDeposit (amount : UInt64)
  | previewWithdraw (amount : UInt64)

/-- The answer to a read, from the record. -/
def answer (client : Client) : Read → Except Error UInt64
  | .totalValue => .ok client.totalValue
  | .venueValue venue => client.venueValue venue
  | .previewDeposit amount => client.previewDeposit amount
  | .previewWithdraw amount => client.previewWithdraw amount

end Client

/-! ## Turns -/

/-- What was demanded of a client, and what came of it. -/
inductive Demand
  | reload (outcome : Except Error Unit)
  | call (call : VaultCall) (result : ExecutionResult)
  | read (read : Client.Read) (answer : Except Error UInt64)

/-- One turn in the life of a client. -/
structure Turn where
  demand : Demand
  before : Client
  exchanges : List Exchange
  after : Client

namespace Turn

/-- Whether the client meets the demand, where the ledger answers as listed. -/
def Met (turn : Turn) : Prop :=
  match turn.demand with
  | .reload outcome => Runs turn.before.reload turn.exchanges (outcome, turn.after)
  | .call call result => Runs (call.perform turn.before) turn.exchanges (result, turn.after)
  | .read read answer =>
    Runs (pure (turn.before.answer read, turn.before)) turn.exchanges (answer, turn.after)

/-- Whether a turn treats the record as a whole: a reload reads the vault, a call ends with such a
reading, and a read is answered from the record and changes nothing. -/
def Disciplined (turn : Turn) : Prop :=
  match turn.demand with
  | .reload outcome => turn.before.Rereads turn.exchanges outcome turn.after
  | .call call result => ∃ executed closed outcome reloaded, turn.exchanges = executed ++ closed ∧
      turn.before.Ends call executed closed outcome reloaded result turn.after
  | .read read answer =>
    turn.exchanges = [] ∧ answer = turn.before.answer read ∧ turn.after = turn.before

theorem Met.disciplined {turn : Turn} (h : turn.Met) : turn.Disciplined := by
  obtain ⟨demand, before, exchanges, after⟩ := turn
  cases demand with
  | reload outcome => exact Client.rereads_of_runs_reload h
  | call call result => exact Client.ends_of_runs_perform h
  | read read answer =>
    obtain ⟨hnone, hanswer⟩ := Dialogue.runs_done_iff.1 h
    exact ⟨hnone, Prod.mk.inj hanswer⟩

end Turn

/-- Whether one client has the record of another, or a later one. -/
def Client.Follows (after before : Client) : Prop :=
  after.record = before.record ∨ before.record.version < after.record.version

theorem Client.Rereads.follows {client after : Client} {exchanges : List Exchange}
    {outcome : Except Error Unit} (h : client.Rereads exchanges outcome after) :
    after.Follows client := by
  cases h with
  | replaced _ hlater => exact .inr hlater
  | kept _ => exact .inl rfl

theorem Turn.Disciplined.follows {turn : Turn} (h : turn.Disciplined) :
    turn.after.Follows turn.before := by
  obtain ⟨demand, before, exchanges, after⟩ := turn
  cases demand with
  | reload outcome => exact Client.Rereads.follows h
  | call call result =>
    obtain ⟨executed, closed, outcome, reloaded, -, hends⟩ := h
    exact hends.reread.follows
  | read read answer =>
    obtain ⟨-, -, hsame⟩ := h
    exact .inl (congrArg (·.record) hsame)

/-! ## Lives -/

/-- Whether a client comes to be another one by some turns, each met as the one before left it. -/
def Life (first : Client) : List Turn → Client → Prop
  | [], last => last = first
  | turn :: rest, last => turn.before = first ∧ turn.Met ∧ Life turn.after rest last

theorem life_append_iff {first last : Client} {earlier later : List Turn} :
    Life first (earlier ++ later) last ↔
      ∃ middle, Life first earlier middle ∧ Life middle later last := by
  induction earlier generalizing first with
  | nil => simp [Life]
  | cons turn rest ih =>
    simp only [List.cons_append, Life, ih]
    constructor
    · rintro ⟨hbefore, hmet, middle, hrest, hlater⟩
      exact ⟨middle, ⟨hbefore, hmet, hrest⟩, hlater⟩
    · rintro ⟨middle, ⟨hbefore, hmet, hrest⟩, hlater⟩
      exact ⟨hbefore, hmet, middle, hrest, hlater⟩

/-- No record that was there on the way is of a later version than the last. -/
theorem Life.version_le {first last : Client} {turns : List Turn} (h : Life first turns last) :
    ∀ past ∈ first :: turns.map (·.after), past.record.version ≤ last.record.version := by
  induction turns generalizing first with
  | nil =>
    obtain rfl := h
    simp
  | cons turn rest ih =>
    obtain ⟨rfl, hmet, hrest⟩ := h
    have hlater := ih hrest
    have hafter := hlater turn.after List.mem_cons_self
    have hbefore : turn.before.record.version ≤ turn.after.record.version := by
      rcases hmet.disciplined.follows with hsame | hless
      · rw [hsame]
      · omega
    rw [List.map_cons, List.forall_mem_cons]
    exact ⟨Nat.le_trans hbefore hafter, hlater⟩

/-- Whatever is demanded of a client, in whatever order, and whatever the ledger answers: every turn
treats its record as a whole, and either keeps the record that was there, or replaces it by one of a
later version than any that the client had before. -/
theorem a_record_is_replaced_whole_and_by_a_later_one {first last : Client} {turns : List Turn}
    (h : Life first turns last) :
    (∀ turn ∈ turns, turn.Disciplined) ∧
    ∀ earlier turn later, turns = earlier ++ turn :: later →
      turn.after.record = turn.before.record ∨
      ∀ past ∈ first :: earlier.map (·.after), past.record.version < turn.after.record.version := by
  have hsplit : ∀ earlier turn later, turns = earlier ++ turn :: later →
      Life first earlier turn.before ∧ turn.Met := by
    rintro earlier turn later rfl
    obtain ⟨middle, hearlier, rfl, hmet, -⟩ := life_append_iff.1 h
    exact ⟨hearlier, hmet⟩
  refine ⟨fun turn hturn => ?_, fun earlier turn later heq => ?_⟩
  · obtain ⟨earlier, later, heq⟩ := List.append_of_mem hturn
    exact (hsplit earlier turn later heq).2.disciplined
  · obtain ⟨hearlier, hmet⟩ := hsplit earlier turn later heq
    rcases hmet.disciplined.follows with hsame | hless
    · exact .inl hsame
    · right
      intro past hpast
      exact Nat.lt_of_le_of_lt (hearlier.version_le past hpast) hless

namespace OneVenue

/-- The client once it has read the vault a second time. -/
def reread : Client := { client with record := { client.record with version := 2 } }

/-- A withdrawal that is refused, and cannot read the vault anew; then a reload that does, and a look
at what a deposit would bring. -/
def turns : List Turn :=
  [⟨.call (.withdraw pair 500) refusedResult, client, refusedExchanges, client⟩,
   ⟨.reload (.ok ()), client, opening, reread⟩,
   ⟨.read (.previewDeposit 7) (.ok 7), reread, [], reread⟩]

theorem runs_reload : Runs client.reload opening (.ok (), reread) := by
  have hload : Call.Runs (VaultRecord.load default 2) opening (.ok reread.record) :=
    VaultRecord.runs_load_iff.2 ⟨_, _, _, account 1000, rfl,
      by simpa using (account 1000).decode_encode default [], by decide +kernel⟩
  exact Dialogue.runs_bind_iff.2 ⟨.ok reread.record, opening, [], rfl, hload, .done _⟩

theorem a_record_is_kept_by_a_failed_reading_and_then_replaced :
    Life client turns reread ∧
    (∀ turn ∈ turns, turn.Disciplined) ∧
    ∀ earlier turn later, turns = earlier ++ turn :: later →
      turn.after.record = turn.before.record ∨
      ∀ past ∈ client :: earlier.map (·.after),
        past.record.version < turn.after.record.version := by
  have hlife : Life client turns reread :=
    ⟨rfl, runs_refused_withdrawal, rfl, runs_reload, rfl, .done _, rfl⟩
  exact ⟨hlife, a_record_is_replaced_whole_and_by_a_later_one hlife⟩

end OneVenue

end YieldVault
