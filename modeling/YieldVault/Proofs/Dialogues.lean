-- The laws of dialogues: the runs of a dialogue made of two are the runs of the
-- first, each followed by a run of what its result calls for; and a dialogue that
-- never sends a batch has none among its exchanges.
import YieldVault.Client.Transfer

namespace YieldVault

/-- Whether a question sends a batch. -/
def Request.submits : Request → Bool
  | .submit .. => true
  | _ => false

/-- The batches sent in the course of some exchanges, with what became of them. -/
def submissions (exchanges : List Exchange) : List Exchange :=
  exchanges.filter fun exchange => exchange.1.submits

@[simp] theorem submissions_nil : submissions [] = [] := rfl

@[simp] theorem submissions_append (first rest : List Exchange) :
    submissions (first ++ rest) = submissions first ++ submissions rest :=
  List.filter_append first rest

namespace Dialogue

variable {α β : Type}

instance : LawfulMonad Dialogue :=
  LawfulMonad.mk' Dialogue bind_done (fun _ _ => rfl) bind_assoc

/-! ## Runs -/

@[simp] theorem runs_done_iff {a b : α} {exchanges : List Exchange} :
    Runs (.done a) exchanges b ↔ exchanges = [] ∧ b = a := by
  constructor
  · intro run
    cases run
    exact ⟨rfl, rfl⟩
  · rintro ⟨rfl, rfl⟩
    exact .done _

@[simp] theorem runs_ask_iff {request : Request} {next : Reply request → Dialogue α}
    {exchanges : List Exchange} {a : α} :
    Runs (.ask request next) exchanges a ↔
      ∃ reply later, exchanges = ⟨request, reply⟩ :: later ∧ Runs (next reply) later a := by
  constructor
  · intro run
    cases run with
    | ask run => exact ⟨_, _, rfl, run⟩
  · rintro ⟨reply, later, rfl, run⟩
    exact .ask run

/-- A single question is answered by its one exchange. -/
theorem runs_question_iff {request : Request} {exchanges : List Exchange} {reply : Reply request} :
    Runs (.ask request .done) exchanges reply ↔ exchanges = [⟨request, reply⟩] := by
  simp only [runs_ask_iff, runs_done_iff]
  constructor
  · rintro ⟨reply, later, rfl, rfl, rfl⟩
    rfl
  · rintro rfl
    exact ⟨reply, [], rfl, rfl, rfl⟩

theorem runs_bind_iff {d : Dialogue α} {f : α → Dialogue β} {exchanges : List Exchange} {b : β} :
    Runs (d >>= f) exchanges b ↔
      ∃ a first rest, exchanges = first ++ rest ∧ Runs d first a ∧ Runs (f a) rest b := by
  induction d generalizing exchanges with
  | done a =>
    constructor
    · intro run
      exact ⟨a, [], exchanges, rfl, .done a, run⟩
    · rintro ⟨a', first, rest, rfl, hfirst, hrest⟩
      obtain ⟨rfl, rfl⟩ := runs_done_iff.1 hfirst
      exact hrest
  | ask request next ih =>
    rw [ask_bind]
    constructor
    · intro run
      obtain ⟨reply, later, rfl, hlater⟩ := runs_ask_iff.1 run
      obtain ⟨a, first, rest, rfl, hfirst, hrest⟩ := (ih reply).1 hlater
      exact ⟨a, ⟨request, reply⟩ :: first, rest, rfl, .ask hfirst, hrest⟩
    · rintro ⟨a, first, rest, rfl, hfirst, hrest⟩
      obtain ⟨reply, later, rfl, hlater⟩ := runs_ask_iff.1 hfirst
      exact .ask ((ih reply).2 ⟨a, later, rest, rfl, hlater, hrest⟩)

/-- Two runs that get the same answers as far as they go are one run. -/
theorem runs_unique {d : Dialogue α} {first first' rest rest' : List Exchange} {a a' : α}
    (h : Runs d first a) (h' : Runs d first' a') (hsame : first ++ rest = first' ++ rest') :
    first = first' ∧ rest = rest' ∧ a = a' := by
  induction h generalizing first' with
  | done a =>
    obtain ⟨rfl, rfl⟩ := runs_done_iff.1 h'
    exact ⟨rfl, hsame, rfl⟩
  | ask _ ih =>
    obtain ⟨reply', later', rfl, hlater'⟩ := runs_ask_iff.1 h'
    obtain ⟨hhead, htail⟩ := List.cons.inj hsame
    cases hhead
    obtain ⟨rfl, hrest, ha⟩ := ih hlater' htail
    exact ⟨rfl, hrest, ha⟩

/-! ## Quiet dialogues -/

/-- A dialogue that sends no batch, whatever it is told. -/
def Quiet : Dialogue α → Prop
  | .done _ => True
  | .ask request next => request.submits = false ∧ ∀ reply, (next reply).Quiet

theorem Quiet.bind {d : Dialogue α} {f : α → Dialogue β} (hd : d.Quiet)
    (hf : ∀ a, (f a).Quiet) : (d >>= f).Quiet := by
  induction d with
  | done a => exact hf a
  | ask request next ih => exact ⟨hd.1, fun reply => ih reply (hd.2 reply)⟩

theorem Quiet.submissions_eq_nil {d : Dialogue α} {exchanges : List Exchange} {a : α}
    (hquiet : d.Quiet) (hrun : Runs d exchanges a) : submissions exchanges = [] := by
  induction hrun with
  | done => rfl
  | ask _ ih =>
    rw [submissions, List.filter_cons_of_neg (by simp [hquiet.1])]
    exact ih (hquiet.2 _)

/-- Every question can be answered somehow. -/
theorem exists_runs (d : Dialogue α) : ∃ exchanges a, Runs d exchanges a := by
  induction d with
  | done a => exact ⟨[], a, .done a⟩
  | ask request next ih =>
    have hreply : Nonempty (Reply request) := by
      cases request with
      | submit => exact ⟨.error ⟨none, ""⟩⟩
      | _ => exact ⟨.error .mathOverflow⟩
    obtain ⟨reply⟩ := hreply
    obtain ⟨later, a, hlater⟩ := ih reply
    exact ⟨_, a, .ask hlater⟩

/-- What no run shows a dialogue to do it never does. -/
theorem quiet_of_runs {d : Dialogue α}
    (h : ∀ {exchanges a}, Runs d exchanges a → ∀ exchange ∈ exchanges, exchange.1.submits = false) :
    d.Quiet := by
  induction d with
  | done a => exact trivial
  | ask request next ih =>
    constructor
    · obtain ⟨exchanges, a, hrun⟩ := exists_runs (.ask request next)
      obtain ⟨reply, later, rfl, -⟩ := runs_ask_iff.1 hrun
      exact h hrun _ List.mem_cons_self
    · intro reply
      apply ih reply
      intro exchanges a hrun exchange hmem
      exact h (.ask hrun) exchange (List.mem_cons_of_mem _ hmem)

end Dialogue

namespace Call

variable {α β : Type}

/-- What a call comes to when its questions get the listed answers. -/
def Runs (call : Call α) (exchanges : List Exchange) (outcome : Except Error α) : Prop :=
  Dialogue.Runs call.run exchanges outcome

variable {exchanges : List Exchange} {outcome : Except Error α}

@[simp] theorem runs_pure_iff {a : α} :
    Runs (pure a) exchanges outcome ↔ exchanges = [] ∧ outcome = .ok a :=
  Dialogue.runs_done_iff

@[simp] theorem runs_throw_iff {e : Error} :
    Runs (throw e : Call α) exchanges outcome ↔ exchanges = [] ∧ outcome = .error e :=
  Dialogue.runs_done_iff

@[simp] theorem runs_lift_iff {result : Except Error α} :
    Runs (liftM result : Call α) exchanges outcome ↔ exchanges = [] ∧ result = outcome := by
  rw [eq_comm (a := result)]
  exact Dialogue.runs_done_iff

/-- Whatever it comes to, a call of two parts ends with the first where that fails. -/
theorem runs_bind_iff {call : Call α} {f : α → Call β} {outcome : Except Error β} :
    Runs (call >>= f) exchanges outcome ↔
      (∃ a first rest, exchanges = first ++ rest ∧ Runs call first (.ok a) ∧
        Runs (f a) rest outcome) ∨
      ∃ e, Runs call exchanges (.error e) ∧ outcome = .error e := by
  unfold Runs
  rw [ExceptT.run_bind, Dialogue.runs_bind_iff]
  constructor
  · rintro ⟨result, first, rest, rfl, hfirst, hrest⟩
    cases result with
    | ok a => exact .inl ⟨a, first, rest, rfl, hfirst, hrest⟩
    | error e =>
      obtain ⟨rfl, rfl⟩ := Dialogue.runs_done_iff.1 hrest
      exact .inr ⟨e, by rwa [List.append_nil], rfl⟩
  · rintro (⟨a, first, rest, rfl, hfirst, hrest⟩ | ⟨e, hfirst, rfl⟩)
    · exact ⟨.ok a, first, rest, rfl, hfirst, hrest⟩
    · exact ⟨.error e, exchanges, [], (List.append_nil _).symm, hfirst, .done _⟩

/-- A call of two parts goes well where both do. -/
theorem runs_bind_ok_iff {call : Call α} {f : α → Call β} {b : β} :
    Runs (call >>= f) exchanges (.ok b) ↔
      ∃ a first rest, exchanges = first ++ rest ∧ Runs call first (.ok a) ∧
        Runs (f a) rest (.ok b) := by
  rw [runs_bind_iff]
  constructor
  · rintro (h | ⟨e, -, hfailed⟩)
    · exact h
    · cases hfailed
  · exact .inl

/-- A part that asks nothing leaves all exchanges to the other part, unless it fails. -/
theorem runs_lift_bind_iff {result : Except Error α} {f : α → Call β} {outcome : Except Error β} :
    Runs (liftM result >>= f) exchanges outcome ↔
      (∃ a, result = .ok a ∧ Runs (f a) exchanges outcome) ∨
      ∃ e, result = .error e ∧ exchanges = [] ∧ outcome = .error e := by
  rw [runs_bind_iff]
  constructor
  · rintro (⟨a, first, rest, rfl, hfirst, hrest⟩ | ⟨e, hfirst, rfl⟩)
    · obtain ⟨rfl, ha⟩ := runs_lift_iff.1 hfirst
      exact .inl ⟨a, ha, hrest⟩
    · obtain ⟨rfl, he⟩ := runs_lift_iff.1 hfirst
      exact .inr ⟨e, he, rfl, rfl⟩
  · rintro (⟨a, ha, hrest⟩ | ⟨e, he, rfl, rfl⟩)
    · exact .inl ⟨a, [], exchanges, rfl, runs_lift_iff.2 ⟨rfl, ha⟩, hrest⟩
    · exact .inr ⟨e, runs_lift_iff.2 ⟨rfl, he⟩, rfl⟩

theorem runs_lift_bind_ok_iff {result : Except Error α} {f : α → Call β} {b : β} :
    Runs (liftM result >>= f) exchanges (.ok b) ↔
      ∃ a, result = .ok a ∧ Runs (f a) exchanges (.ok b) := by
  rw [runs_lift_bind_iff]
  constructor
  · rintro (h | ⟨e, -, -, hfailed⟩)
    · exact h
    · cases hfailed
  · exact .inl

theorem runs_account_iff {address : Key} {outcome : Except Error (Option StoredAccount)} :
    Runs (account address) exchanges outcome ↔ exchanges = [⟨.account address, outcome⟩] :=
  Dialogue.runs_question_iff

theorem runs_rent_iff {width : Nat} {outcome : Except Error UInt64} :
    Runs (rent width) exchanges outcome ↔ exchanges = [⟨.rent width, outcome⟩] :=
  Dialogue.runs_question_iff

theorem runs_simulate_iff {instructions : List Instruction} {accounts : List Key}
    {outcome : Except Error Simulation} :
    Runs (simulate instructions accounts) exchanges outcome ↔
      exchanges = [⟨.simulate instructions accounts, outcome⟩] :=
  Dialogue.runs_question_iff

/-! ## Quiet calls -/

/-- A call that sends no batch, whatever it is told. -/
def Quiet (call : Call α) : Prop := Dialogue.Quiet call.run

end Call

end YieldVault
