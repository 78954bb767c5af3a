-- The laws of submissions: batches reach the ledger in their order, one after the
-- other is taken, up to the first that is refused; and what is kept of them is
-- what the ledger took.
import Mathlib.Data.List.Forall2
import YieldVault.Proofs.Dialogues

namespace YieldVault

open Dialogue (Runs)

/-! ## Sent batches -/

/-- A batch that reached the ledger, and what became of it. -/
structure Sent where
  batch : Batch
  reply : Except Rejection Signature

namespace Sent

/-- The exchange by which a batch reached the ledger. -/
def Reached (encoder : Encoder) (keyring : List Keypair) (s : Sent) (exchange : Exchange) : Prop :=
  ∃ instructions signers, s.batch.ready encoder keyring = .ok (instructions, signers) ∧
    exchange = ⟨.submit instructions signers, s.reply⟩

/-- The batches that were taken, each with its place among all. -/
def confirmations (sent : List Sent) : List Confirmation :=
  sent.zipIdx.filterMap fun (s, k) => s.reply.toOption.map (⟨k, s.batch.kind, ·⟩)

/-- What sending batches comes to, the first of them in a given place. -/
def verdict (place : Nat) : List Sent → Except Error Unit
  | [] => .ok ()
  | ⟨_, .ok _⟩ :: rest => verdict (place + 1) rest
  | ⟨_, .error r⟩ :: _ => .error (.batchRejected place r.code r.reason)

theorem confirmations_taken (sent : List Sent) (batch : Batch) (signature : Signature) :
    confirmations (sent ++ [⟨batch, .ok signature⟩]) =
      confirmations sent ++ [⟨sent.length, batch.kind, signature⟩] := by
  simp [confirmations, List.zipIdx_append, Except.toOption]

theorem confirmations_refused (sent : List Sent) (batch : Batch) (r : Rejection) :
    confirmations (sent ++ [⟨batch, .error r⟩]) = confirmations sent := by
  simp [confirmations, List.zipIdx_append, Except.toOption]

theorem exists_of_mem_reached {encoder : Encoder} {keyring : List Keypair} {sent : List Sent}
    {exchanges : List Exchange} (h : List.Forall₂ (Reached encoder keyring) sent exchanges)
    {exchange : Exchange} (hmem : exchange ∈ exchanges) :
    ∃ s ∈ sent, Reached encoder keyring s exchange := by
  induction h with
  | nil => cases hmem
  | @cons s _ sent _ hreached _ ih =>
    rcases List.mem_cons.1 hmem with rfl | hmem
    · exact ⟨s, List.mem_cons_self, hreached⟩
    · obtain ⟨s', hs', hreached'⟩ := ih hmem
      exact ⟨s', List.mem_cons_of_mem s hs', hreached'⟩

/-- Whether the ledger took the batch. -/
def Taken (s : Sent) : Prop := ∃ signature, s.reply = .ok signature

theorem verdict_eq_ok_iff {place : Nat} {sent : List Sent} :
    verdict place sent = .ok () ↔ ∀ s ∈ sent, s.Taken := by
  induction sent generalizing place with
  | nil => simp [verdict]
  | cons s rest ih =>
    obtain ⟨batch, reply⟩ := s
    cases reply with
    | ok signature => simp [verdict, ih, Taken]
    | error r => simp [verdict, Taken]

/-- A refused batch stands behind all that were taken. -/
theorem length_le_of_refused {place k : Nat} {first rest : List Sent} {batch : Batch}
    {r : Rejection} (hok : verdict place first = .ok ())
    (hk : (first ++ rest)[k]? = some ⟨batch, .error r⟩) : first.length ≤ k := by
  by_contra hlt
  rw [List.getElem?_append_left (by omega)] at hk
  obtain ⟨signature, hsignature⟩ := verdict_eq_ok_iff.1 hok _ (List.mem_of_getElem? hk)
  cases hsignature

theorem verdict_append (place : Nat) (first rest : List Sent) :
    verdict place (first ++ rest) =
      verdict place first >>= fun _ => verdict (place + first.length) rest := by
  induction first generalizing place with
  | nil => rfl
  | cons s first ih =>
    obtain ⟨batch, reply⟩ := s
    cases reply with
    | ok signature =>
      simp only [List.cons_append, verdict, ih, List.length_cons]
      rw [show place + 1 + first.length = place + (first.length + 1) by omega]
    | error r => rfl

end Sent

/-- Batches that reach the ledger in their order, up to the first that it refuses. -/
inductive Delivered : List Batch → List Sent → Prop
  | nil : Delivered [] []
  | refused {batch : Batch} {rest : List Batch} {r : Rejection} :
      Delivered (batch :: rest) [⟨batch, .error r⟩]
  | taken {batch : Batch} {rest : List Batch} {signature : Signature} {sent : List Sent} :
      Delivered rest sent → Delivered (batch :: rest) (⟨batch, .ok signature⟩ :: sent)

namespace Delivered

variable {batches others : List Batch} {sent later : List Sent} {place : Nat}

/-- What was sent is a first part of the batches. -/
theorem isPrefix (h : Delivered batches sent) : sent.map (·.batch) <+: batches := by
  induction h with
  | nil => exact List.prefix_refl []
  | refused => exact List.prefix_append [_] _
  | taken _ ih => exact (List.prefix_cons_inj _).2 ih

theorem batch_mem (h : Delivered batches sent) {s : Sent} (hs : s ∈ sent) : s.batch ∈ batches :=
  h.isPrefix.subset (List.mem_map_of_mem hs)

theorem length_le (h : Delivered batches sent) : sent.length ≤ batches.length := by
  have hle := h.isPrefix.length_le
  rwa [List.length_map] at hle

/-- A batch with another behind it was taken. -/
theorem taken_of_lt (h : Delivered batches sent) {k : Nat} (hk : k + 1 < sent.length) :
    ∃ batch signature, sent[k]? = some ⟨batch, .ok signature⟩ := by
  induction h generalizing k with
  | nil => simp at hk
  | refused => simp at hk
  | @taken batch _ signature sent _ ih =>
    cases k with
    | zero => exact ⟨batch, signature, rfl⟩
    | succ k => simpa using ih (by simpa using hk)

/-- Where none was refused, all were sent. -/
theorem eq_of_verdict_ok (h : Delivered batches sent) (hok : Sent.verdict place sent = .ok ()) :
    sent.map (·.batch) = batches := by
  induction h generalizing place with
  | nil => rfl
  | refused => simp [Sent.verdict] at hok
  | taken _ ih => simp [ih hok]

theorem length_eq_of_verdict_ok (h : Delivered batches sent)
    (hok : Sent.verdict place sent = .ok ()) : sent.length = batches.length := by
  rw [← h.eq_of_verdict_ok hok, List.length_map]

/-- The verdict names the place of a refused batch, and the ledger's own reason. -/
theorem verdict_of_refused (h : Delivered batches sent) {k : Nat} {batch : Batch} {r : Rejection}
    (hk : sent[k]? = some ⟨batch, .error r⟩) :
    Sent.verdict place sent = .error (.batchRejected (place + k) r.code r.reason) := by
  induction h generalizing place k with
  | nil => simp at hk
  | refused =>
    cases k with
    | zero =>
      simp only [List.getElem?_cons_zero, Option.some.injEq, Sent.mk.injEq] at hk
      obtain ⟨-, ⟨⟩⟩ := hk
      rfl
    | succ k => simp at hk
  | taken _ ih =>
    cases k with
    | zero => simp at hk
    | succ k =>
      rw [Sent.verdict, ih (by simpa using hk), show place + 1 + k = place + (k + 1) by omega]

/-- A verdict against the batches is that on one of them, which was refused. -/
theorem exists_refused (h : Delivered batches sent) {e : Error}
    (he : Sent.verdict place sent = .error e) :
    ∃ k batch r, sent[k]? = some ⟨batch, .error r⟩ ∧
      e = .batchRejected (place + k) r.code r.reason := by
  induction h generalizing place with
  | nil => cases he
  | @refused batch _ r =>
    cases he
    exact ⟨0, batch, r, rfl, rfl⟩
  | taken _ ih =>
    obtain ⟨k, batch, r, hk, rfl⟩ := ih he
    exact ⟨k + 1, batch, r, by simpa using hk, by rw [show place + 1 + k = place + (k + 1) by omega]⟩

/-- A batch that is sent alone is sent, whatever becomes of it. -/
theorem single {batch : Batch} (h : Delivered [batch] sent) : ∃ reply, sent = [⟨batch, reply⟩] := by
  cases h with
  | @refused _ _ r => exact ⟨.error r, rfl⟩
  | @taken _ _ signature _ hnone =>
    cases hnone
    exact ⟨.ok signature, rfl⟩

/-- A refusal ends what is sent, whatever else was planned. -/
theorem extend (h : Delivered batches sent) {e : Error} (he : Sent.verdict place sent = .error e) :
    Delivered (batches ++ others) sent := by
  induction h generalizing place with
  | nil => simp [Sent.verdict] at he
  | refused => exact .refused
  | taken _ ih => exact .taken (ih he)

/-- Without a refusal the next batches follow. -/
theorem append (h : Delivered batches sent) (hok : Sent.verdict place sent = .ok ())
    (hlater : Delivered others later) : Delivered (batches ++ others) (sent ++ later) := by
  induction h generalizing place with
  | nil => exact hlater
  | refused => simp [Sent.verdict] at hok
  | taken _ ih => exact .taken (ih hok)

end Delivered

/-! ## Progress -/

/-- Progress after some batches: their number, and those that were taken. -/
structure Progress.Reflects (p : Progress) (sent : List Sent) : Prop where
  attempted : p.attempted = sent.length
  confirmed : p.confirmed = Sent.confirmations sent

namespace Progress.Reflects

variable {p : Progress} {sent : List Sent}

theorem start : Progress.start.Reflects [] := ⟨rfl, rfl⟩

theorem fail (h : p.Reflects sent) (batch : Batch) (r : Rejection) :
    p.fail.Reflects (sent ++ [⟨batch, .error r⟩]) := by
  constructor
  · simp [Progress.fail, h.attempted]
  · rw [Sent.confirmations_refused]
    exact h.confirmed

theorem confirm (h : p.Reflects sent) (batch : Batch) (signature : Signature) :
    (p.confirm batch.kind signature).Reflects (sent ++ [⟨batch, .ok signature⟩]) := by
  constructor
  · simp [Progress.confirm, h.attempted]
  · rw [Sent.confirmations_taken]
    simp [Progress.confirm, h.attempted, h.confirmed]

end Progress.Reflects

/-! ## Sending -/

namespace Batch

variable {encoder : Encoder} {keyring : List Keypair} {p p' : Progress} {before : List Sent}
  {exchanges : List Exchange} {outcome : Except Error Unit}

/-- Whether there is something to hand to the ledger for a batch. -/
def Sendable (batch : Batch) (encoder : Encoder) (keyring : List Keypair) : Prop :=
  ∃ handed, batch.ready encoder keyring = .ok handed

/-- One batch is sent in one exchange, and its progress and outcome are those of the reply. -/
theorem reached_of_runs_send {batch : Batch} (hready : batch.Sendable encoder keyring)
    (hp : p.Reflects before)
    (hrun : Runs (batch.send encoder keyring p) exchanges (outcome, p')) :
    ∃ s : Sent, s.batch = batch ∧ List.Forall₂ (Sent.Reached encoder keyring) [s] exchanges ∧
      p'.Reflects (before ++ [s]) ∧ outcome = Sent.verdict before.length [s] := by
  obtain ⟨⟨instructions, signers⟩, hready⟩ := hready
  unfold send at hrun
  rw [hready] at hrun
  obtain ⟨reply, first, rest, rfl, hfirst, hrest⟩ := Dialogue.runs_bind_iff.1 hrun
  obtain rfl := Dialogue.runs_question_iff.1 hfirst
  refine ⟨⟨batch, reply⟩, rfl, ?_⟩
  cases reply with
  | ok signature =>
    obtain ⟨rfl, hresult⟩ := Dialogue.runs_done_iff.1 hrest
    cases hresult
    exact ⟨.cons ⟨instructions, signers, hready, rfl⟩ .nil, hp.confirm batch signature, rfl⟩
  | error r =>
    obtain ⟨rfl, hresult⟩ := Dialogue.runs_done_iff.1 hrest
    cases hresult
    refine ⟨.cons ⟨instructions, signers, hready, rfl⟩ .nil, hp.fail batch r, ?_⟩
    rw [Sent.verdict, hp.attempted]

/-- Batches sent in order are delivered in order, and progress keeps what was taken. -/
theorem delivered_of_runs_sendAll {batches : List Batch}
    (hready : ∀ batch ∈ batches, batch.Sendable encoder keyring) (hp : p.Reflects before)
    (hrun : Runs (sendAll encoder keyring batches p) exchanges (outcome, p')) :
    ∃ sent, Delivered batches sent ∧ List.Forall₂ (Sent.Reached encoder keyring) sent exchanges ∧
      p'.Reflects (before ++ sent) ∧ outcome = Sent.verdict before.length sent := by
  induction batches generalizing p before exchanges with
  | nil =>
    obtain ⟨rfl, hresult⟩ := Dialogue.runs_done_iff.1 hrun
    cases hresult
    exact ⟨[], .nil, .nil, by simpa using hp, rfl⟩
  | cons batch rest ih =>
    unfold sendAll at hrun
    obtain ⟨⟨firstOutcome, q⟩, first, others, rfl, hfirst, hothers⟩ := Dialogue.runs_bind_iff.1 hrun
    obtain ⟨⟨_, reply⟩, rfl, hreached, hq, hverdict⟩ :=
      reached_of_runs_send (hready batch List.mem_cons_self) hp hfirst
    cases reply with
    | ok signature =>
      subst hverdict
      obtain ⟨sent, hdelivered, hlater, hp', houtcome⟩ :=
        ih (fun x hx => hready x (List.mem_cons_of_mem _ hx)) hq hothers
      refine ⟨_ :: sent, .taken hdelivered, List.rel_append hreached hlater, by simpa using hp', ?_⟩
      simpa [Sent.verdict] using houtcome
    | error r =>
      subst hverdict
      obtain ⟨rfl, hresult⟩ := Dialogue.runs_done_iff.1 hothers
      cases hresult
      exact ⟨_, .refused, by simpa using hreached, hq, rfl⟩

/-! ## Sending each -/

variable {results : List (Except Error Unit)} {batches : List Batch}

/-- A batch counts as attempted, whatever becomes of it, and a confirmed one is kept with the place
it has among all that were attempted. -/
theorem progress_of_runs_send {batch : Batch}
    (hrun : Runs (batch.send encoder keyring p) exchanges (outcome, p')) :
    p'.attempted = p.attempted + 1 ∧
      ((∃ e, outcome = .error e ∧ p'.confirmed = p.confirmed) ∨
        outcome = .ok () ∧ ∃ signature,
          p'.confirmed = p.confirmed ++ [⟨p.attempted, batch.kind, signature⟩]) := by
  unfold send at hrun
  split at hrun
  · obtain ⟨-, hresult⟩ := Dialogue.runs_done_iff.1 hrun
    cases hresult
    exact ⟨rfl, .inl ⟨_, rfl, rfl⟩⟩
  · obtain ⟨reply, first, rest, -, -, hrest⟩ := Dialogue.runs_bind_iff.1 hrun
    cases reply with
    | ok signature =>
      obtain ⟨-, hresult⟩ := Dialogue.runs_done_iff.1 hrest
      cases hresult
      exact ⟨rfl, .inr ⟨rfl, signature, rfl⟩⟩
    | error r =>
      obtain ⟨-, hresult⟩ := Dialogue.runs_done_iff.1 hrest
      cases hresult
      exact ⟨rfl, .inl ⟨_, rfl, rfl⟩⟩

theorem runs_sendEach_cons_iff {batch : Batch} {rest : List Batch} :
    Runs (sendEach encoder keyring (batch :: rest) p) exchanges (results, p') ↔
      ∃ result q more first later, results = result :: more ∧ exchanges = first ++ later ∧
        Runs (batch.send encoder keyring p) first (result, q) ∧
        Runs (sendEach encoder keyring rest q) later (more, p') := by
  rw [sendEach]
  constructor
  · intro hrun
    obtain ⟨⟨result, q⟩, first, later, rfl, hfirst, hlater⟩ := Dialogue.runs_bind_iff.1 hrun
    obtain ⟨⟨more, q'⟩, later, last, rfl, hlater, hlast⟩ := Dialogue.runs_bind_iff.1 hlater
    obtain ⟨rfl, hresult⟩ := Dialogue.runs_done_iff.1 hlast
    cases hresult
    exact ⟨result, q, more, first, later, rfl, by simp, hfirst, hlater⟩
  · rintro ⟨result, q, more, first, later, rfl, rfl, hfirst, hlater⟩
    refine Dialogue.runs_bind_iff.2 ⟨_, first, later, rfl, hfirst, ?_⟩
    exact Dialogue.runs_bind_iff.2 ⟨_, later, [], by simp, hlater, .done _⟩

/-- Of batches that are sent each there is one result for each, in its place; all of them count as
attempted; and those that went well are confirmed, in order and each in its place. -/
theorem progress_of_runs_sendEach
    (hrun : Runs (sendEach encoder keyring batches p) exchanges (results, p')) :
    results.length = batches.length ∧ p'.attempted = p.attempted + batches.length ∧
      ∃ new, p'.confirmed = p.confirmed ++ new ∧
        new.map (fun c => (c.batch, c.kind)) =
          ((batches.zip results).zipIdx p.attempted).filterMap fun ((batch, result), place) =>
            result.toOption.map fun _ => (place, batch.kind) := by
  induction batches generalizing p exchanges results with
  | nil =>
    obtain ⟨-, hresult⟩ := Dialogue.runs_done_iff.1 hrun
    cases hresult
    exact ⟨rfl, rfl, [], by simp, rfl⟩
  | cons batch rest ih =>
    obtain ⟨result, q, more, first, later, rfl, -, hfirst, hlater⟩ := runs_sendEach_cons_iff.1 hrun
    obtain ⟨hattempted, hconfirmed⟩ := progress_of_runs_send hfirst
    obtain ⟨hlength, htotal, new, hnew, hplaces⟩ := ih hlater
    refine ⟨by simp [hlength], by rw [htotal, hattempted, List.length_cons]; omega, ?_⟩
    rcases hconfirmed with ⟨e, rfl, hsame⟩ | ⟨rfl, signature, hone⟩
    · refine ⟨new, by rw [hnew, hsame], ?_⟩
      simp [hplaces, hattempted, Except.toOption]
    · refine ⟨⟨p.attempted, batch.kind, signature⟩ :: new, by rw [hnew, hone]; simp, ?_⟩
      simp [hplaces, hattempted, Except.toOption]

/-- Batches that are sent up to the first failure are a first part of those that are sent each: the
failure is the first among the results, and where there is none, both are the same. -/
theorem exists_runs_sendAll
    (hrun : Runs (sendEach encoder keyring batches p) exchanges (results, p')) :
    ∃ first rest outcome q, exchanges = first ++ rest ∧
      Runs (sendAll encoder keyring batches p) first (outcome, q) ∧
      ((outcome = .ok () ∧ rest = [] ∧ q = p' ∧ ∀ r ∈ results, r = .ok ()) ∨
        ∃ e before after, outcome = .error e ∧ results = before ++ .error e :: after ∧
          ∀ r ∈ before, r = .ok ()) := by
  induction batches generalizing p exchanges results with
  | nil =>
    obtain ⟨rfl, hresult⟩ := Dialogue.runs_done_iff.1 hrun
    cases hresult
    exact ⟨[], [], .ok (), _, rfl, .done _, .inl ⟨rfl, rfl, rfl, by simp⟩⟩
  | cons batch others ih =>
    obtain ⟨result, q, more, first, later, rfl, rfl, hfirst, hlater⟩ := runs_sendEach_cons_iff.1 hrun
    cases result with
    | error e =>
      refine ⟨first, later, .error e, q, rfl, ?_, .inr ⟨e, [], more, rfl, rfl, by simp⟩⟩
      exact Dialogue.runs_bind_iff.2 ⟨_, first, [], by simp, hfirst, .done _⟩
    | ok =>
      obtain ⟨second, rest, outcome, q', rfl, hsecond, hends⟩ := ih hlater
      refine ⟨first ++ second, rest, outcome, q', by simp, ?_, ?_⟩
      · exact Dialogue.runs_bind_iff.2 ⟨_, first, second, rfl, hfirst, hsecond⟩
      · rcases hends with ⟨rfl, rfl, rfl, hall⟩ | ⟨e, before, after, rfl, rfl, hbefore⟩
        · exact .inl ⟨rfl, rfl, rfl, by simpa using hall⟩
        · exact .inr ⟨e, .ok () :: before, after, rfl, rfl, by simpa using hbefore⟩

end Batch

end YieldVault
