-- The laws of admission: the vault's routes are open to whoever shows one of the keys
-- that the service was set up with, and to nobody else. A request that shows none is
-- turned away before the ledger is asked anything.
import Mathlib.Data.List.Basic
import YieldVault.Proofs.Payout
import YieldVault.Service.App

namespace YieldVault

/-! ## Blanks and pieces -/

namespace Text

/-- What is left of some characters without the blanks at their ends. -/
structure Trims (cs kept : List Char) : Prop where
  split : ∃ before after, cs = before ++ kept ++ after ∧
    (∀ c ∈ before, isBlank c) ∧ ∀ c ∈ after, isBlank c
  head : ∀ c ∈ kept.head?, ¬ isBlank c
  last : ∀ c ∈ kept.getLast?, ¬ isBlank c

theorem exists_blanks_before (cs : List Char) :
    ∃ before, cs = before ++ cs.dropWhile isBlank ∧ ∀ c ∈ before, isBlank c :=
  ⟨cs.takeWhile isBlank, List.takeWhile_append_dropWhile.symm,
    fun c hc => List.all_eq_true.1 List.all_takeWhile c hc⟩

theorem not_blank_of_head {cs : List Char} {c : Char} (h : c ∈ (cs.dropWhile isBlank).head?) :
    ¬ isBlank c := by
  have hhead := List.head?_dropWhile_not isBlank cs
  rw [Option.mem_def.1 h] at hhead
  simpa using hhead

theorem dropWhile_blanks {before cs : List Char} (hbefore : ∀ c ∈ before, isBlank c)
    (hcs : ∀ c ∈ cs.head?, ¬ isBlank c) : (before ++ cs).dropWhile isBlank = cs := by
  rw [List.dropWhile_append_of_pos hbefore]
  cases cs with
  | nil => rfl
  | cons c rest => exact List.dropWhile_cons_of_neg (hcs c rfl)

theorem trims_trimChars (cs : List Char) : Trims cs (trimChars cs) := by
  obtain ⟨before, hcs, hbefore⟩ := exists_blanks_before cs
  obtain ⟨after, hback, hafter⟩ := exists_blanks_before (cs.dropWhile isBlank).reverse
  have hfront : cs.dropWhile isBlank = trimChars cs ++ after.reverse := by
    rw [trimChars, ← List.reverse_append, ← hback, List.reverse_reverse]
  refine ⟨⟨before, after.reverse, ?_, hbefore, ?_⟩, ?_, ?_⟩
  · rw [List.append_assoc, ← hfront]
    exact hcs
  · exact fun c hc => hafter c (List.mem_reverse.1 hc)
  · intro c hc
    have hhead : (cs.dropWhile isBlank).head? = some c := by
      rw [hfront, List.head?_append, Option.mem_def.1 hc]
      rfl
    exact not_blank_of_head hhead
  · intro c hc
    rw [trimChars, List.getLast?_reverse] at hc
    exact not_blank_of_head hc

theorem trimChars_eq_iff {cs kept : List Char} : trimChars cs = kept ↔ Trims cs kept := by
  constructor
  · rintro rfl
    exact trims_trimChars cs
  · rintro ⟨⟨before, after, rfl, hbefore, hafter⟩, hhead, hlast⟩
    have hback : ∀ c ∈ kept.reverse.head?, ¬ isBlank c := by
      rwa [List.head?_reverse]
    have hreversed : ∀ c ∈ after.reverse, isBlank c := fun c hc => hafter c (List.mem_reverse.1 hc)
    unfold trimChars
    cases kept with
    | nil =>
      have hall : ∀ c ∈ before ++ after, isBlank c := by
        intro c hc
        rcases List.mem_append.1 hc with hc | hc
        · exact hbefore c hc
        · exact hafter c hc
      have hnone : (before ++ after ++ []).dropWhile isBlank = [] :=
        dropWhile_blanks hall (by simp)
      rw [List.append_nil] at hnone
      rw [List.append_nil, hnone]
      rfl
    | cons first rest =>
      have hfront : ∀ c ∈ (first :: rest ++ after).head?, ¬ isBlank c := hhead
      rw [List.append_assoc, dropWhile_blanks hbefore hfront, List.reverse_append,
        dropWhile_blanks hreversed hback, List.reverse_reverse]

theorem piecesOf_eq_splitOn (separator : Char) (cs : List Char) :
    piecesOf separator cs = cs.splitOn separator := by
  induction cs with
  | nil => rfl
  | cons c rest ih =>
    rw [piecesOf, List.splitOn_cons_eq_if_modifyHead, ih]
    by_cases h : c = separator
    · simp [h]
    · rw [if_neg h, if_neg (by simpa using h)]
      have hsome := List.splitOn_ne_nil separator rest
      cases hpieces : rest.splitOn separator with
      | nil => exact absurd hpieces hsome
      | cons piece pieces => rfl

end Text

/-! ## Lists of keys -/

namespace ServiceConfig

/-- A key that stands in a list of keys: the part of a piece between commas that is neither empty
nor blank at an end. -/
def Listed (keys key : String) : Prop :=
  key ≠ "" ∧ ∃ piece ∈ keys.toList.splitOn ',', Text.Trims piece key.toList

theorem mem_keysOf_iff {keys key : String} : key ∈ keysOf keys ↔ Listed keys key := by
  have htrim : ∀ piece, Text.trim (String.ofList piece) = key ↔ Text.Trims piece key.toList := by
    intro piece
    rw [← Text.trimChars_eq_iff, Text.trim, String.toList_ofList]
    constructor
    · rintro rfl
      exact String.toList_ofList.symm
    · intro h
      rw [h, String.ofList_toList]
  unfold keysOf listOf Text.pieces Listed
  rw [Text.piecesOf_eq_splitOn, List.mem_filter, and_comm]
  simp [htrim]

/-- A list with a piece that is not blank names a key. -/
theorem keysOf_ne_nil {keys : String}
    (h : ∃ piece ∈ keys.toList.splitOn ',', ∃ c ∈ piece, ¬ Text.isBlank c) : keysOf keys ≠ [] := by
  obtain ⟨piece, hpiece, c, hc, hsome⟩ := h
  have htrims := Text.trims_trimChars piece
  have hne : Text.trimChars piece ≠ [] := by
    intro hnone
    obtain ⟨before, after, hsplit, hbefore, hafter⟩ := htrims.split
    rw [hsplit, hnone, List.append_nil] at hc
    rcases List.mem_append.1 hc with hc | hc
    · exact hsome (hbefore c hc)
    · exact hsome (hafter c hc)
  have hlisted : Listed keys (String.ofList (Text.trimChars piece)) :=
    ⟨by simpa using hne, piece, hpiece, by rwa [String.toList_ofList]⟩
  exact List.ne_nil_of_mem (mem_keysOf_iff.2 hlisted)

end ServiceConfig

/-! ## Requests -/

/-- A request that shows a listed key: the first value of its key header can be read, and is one. -/
def HttpRequest.Shows (request : HttpRequest) (keys : String) : Prop :=
  ∃ value, request.header? Service.keyHeader = some value ∧ HttpRequest.isReadable value ∧
    ServiceConfig.Listed keys value

namespace Service

open Dialogue (Runs)

/-- Where some keys are listed, a guarded route is open to a request that shows one. -/
theorem isAdmitted_iff {lookup : Lookup} {keys : String} (hkeys : lookup "API_KEYS" = some keys)
    (hsome : ∃ piece ∈ keys.toList.splitOn ',', ∃ c ∈ piece, ¬ Text.isBlank c) {route : Route}
    (hguarded : route ≠ .health) (request : HttpRequest) :
    isAdmitted (.ofLookup lookup) route request ↔ request.Shows keys := by
  have hroute : route.isGuarded := by
    cases route with
    | health => exact absurd rfl hguarded
    | _ => rfl
  have hlocked : (ServiceConfig.keysOf keys).isEmpty = false := by
    simpa using ServiceConfig.keysOf_ne_nil hsome
  unfold isAdmitted ServiceConfig.admits ServiceConfig.ofLookup HttpRequest.readable?
  simp only [hroute, hkeys, Option.elim_some, hlocked, Bool.not_true, Bool.false_or]
  rw [Option.any_eq_true]
  constructor
  · rintro ⟨value, hvalue, hlisted⟩
    obtain ⟨hvalue, hreadable⟩ := Option.filter_eq_some_iff.1 hvalue
    rw [List.contains_iff_mem, ServiceConfig.mem_keysOf_iff] at hlisted
    exact ⟨value, hvalue, hreadable, hlisted⟩
  · rintro ⟨value, hvalue, hreadable, hlisted⟩
    rw [← ServiceConfig.mem_keysOf_iff, ← List.contains_iff_mem] at hlisted
    exact ⟨value, Option.filter_eq_some_iff.2 ⟨hvalue, hreadable⟩, hlisted⟩

/-! ## What a request comes to -/

/-- What comes of a request that is passed on to its route. -/
def passedOn (config : ServiceConfig) (state : State) (route : Route) (request : HttpRequest) :
    Dialogue (HttpResponse × Client) := do
  let (response, client) ← carryOut state.client state.pair route request
  pure (share config request response, client)

/-- What comes of a request that is turned away: nothing is asked, and the client stays as it
was. -/
def turnedAway (config : ServiceConfig) (state : State) (request : HttpRequest) :
    Dialogue (HttpResponse × Client) :=
  pure (share config request (.bare 401), state.client)

section

variable {config : ServiceConfig} {state : State} {route : Route} {request : HttpRequest}

/-- What a route takes is not a browser's question what it may do. -/
theorem ne_options_of_takes {method : String} (h : route.takes method) :
    (method == "OPTIONS") = false := by
  unfold Route.takes at h
  split at h
  · rw [beq_iff_eq.1 h]
    decide
  · rcases Bool.or_eq_true_iff.1 h with h | h
    · rw [beq_iff_eq.1 h]
      decide
    · rw [beq_iff_eq.1 h]
      decide

theorem handle_eq_dispatch (hfits : ∀ n, request.declaredLength? = some n → n ≤ bodyLimit)
    (hmethod : route.takes request.method) :
    handle config state request = (do
      let (response, client) ← dispatch config state request
      pure (share config request response, client)) := by
  have hlength : request.declaredLength?.any (bodyLimit < ·) = false := by
    cases hn : request.declaredLength? with
    | none => rfl
    | some n => simpa using hfits n hn
  unfold handle
  rw [hlength, ne_options_of_takes hmethod]
  rfl

theorem handle_eq (hfits : ∀ n, request.declaredLength? = some n → n ≤ bodyLimit)
    (hroute : Route.ofPath? request.path = some route) (hguarded : route ≠ .health)
    (hmethod : route.takes request.method) :
    handle config state request =
      if isAdmitted config route request then passedOn config state route request
      else turnedAway config state request := by
  rw [handle_eq_dispatch hfits hmethod]
  unfold dispatch
  simp only [hroute, hmethod, hguarded]
  by_cases hadmitted : isAdmitted config route request
  · simp [hadmitted, passedOn]
  · simp [hadmitted, turnedAway]

/-! ## Answers of a route -/

theorem status_ofError (e : ServiceError) : (Answer.ofError e).status ≠ 401 := by
  have hclass : ∀ kind, (Answer.classOf kind).1 ≠ 401 := by
    intro kind
    cases kind <;> decide
  cases e with
  | badRequest reason => simp [Answer.ofError, HttpResponse.ofJson]
  | call e => exact hclass e.kind
  | execution e => exact hclass e.source.kind

theorem status_answer (result : Except ServiceError Json) : (answer result).status ≠ 401 := by
  cases result with
  | ok json => simp [answer, HttpResponse.ofJson]
  | error e => exact status_ofError e

theorem status_executed (result : ExecutionResult × Client) : (executed result).1.status ≠ 401 := by
  obtain ⟨outcome, client⟩ := result
  cases outcome with
  | ok confirmed => simp [executed, HttpResponse.ofJson]
  | error e => exact status_ofError _

theorem status_withPart (part : String) (read : String → Except ServiceError Json) :
    (withPart part read).status ≠ 401 := by
  unfold withPart
  split
  · simp [HttpResponse.bare]
  · exact status_answer _

theorem status_read (client : Client) (route : Route) : (read client route).status ≠ 401 := by
  cases route with
  | vault => exact status_answer _
  | venueValue part => exact status_withPart _ _
  | previewDeposit part => exact status_withPart _ _
  | previewWithdraw part => exact status_withPart _ _
  | _ => simp [read, HttpResponse.bare]

theorem status_withhold (response : HttpResponse) : response.withhold.status = response.status := by
  unfold HttpResponse.withhold
  split <;> rfl

theorem status_of_form {α : Type} {decode : Json → Except Json.Fault α} {status : Nat}
    (h : request.form decode = .error status) : status ≠ 401 := by
  unfold HttpRequest.form at h
  intro hstatus
  subst hstatus
  repeat' split at h
  all_goals cases h

variable {client after : Client} {pair : Keypair} {exchanges : List Exchange}
  {response : HttpResponse}

theorem status_of_runs_pure {answered : HttpResponse} (hstatus : answered.status ≠ 401)
    (h : Runs (pure (answered, client)) exchanges (response, after)) : response.status ≠ 401 := by
  obtain ⟨-, hresult⟩ := Dialogue.runs_done_iff.1 h
  cases hresult
  exact hstatus

theorem status_of_runs_executed {call : Dialogue (ExecutionResult × Client)}
    (h : Runs (executed <$> call) exchanges (response, after)) : response.status ≠ 401 := by
  rw [map_eq_pure_bind] at h
  obtain ⟨result, first, rest, rfl, -, hrest⟩ := Dialogue.runs_bind_iff.1 h
  exact status_of_runs_pure (status_executed result) hrest

theorem status_of_runs_withForm {α : Type} {decode : Json → Except Json.Fault α}
    {call : α → Dialogue (HttpResponse × Client)}
    (hcall : ∀ form, Runs (call form) exchanges (response, after) → response.status ≠ 401)
    (h : Runs (withForm client (request.form decode) call) exchanges (response, after)) :
    response.status ≠ 401 := by
  cases hform : request.form decode with
  | error status =>
    rw [hform] at h
    exact status_of_runs_pure (status_of_form hform) h
  | ok form =>
    rw [hform] at h
    exact hcall form h

theorem status_of_runs_reload (h : Runs (reload client) exchanges (response, after)) :
    response.status ≠ 401 := by
  obtain ⟨⟨outcome, reloaded⟩, first, rest, rfl, -, hrest⟩ := Dialogue.runs_bind_iff.1 h
  cases outcome with
  | ok => exact status_of_runs_pure (status_answer _) hrest
  | error e => exact status_of_runs_pure (status_ofError (.call e)) hrest

theorem status_of_runs_deposit {form : DepositForm}
    (h : Runs (deposit client pair form) exchanges (response, after)) :
    response.status ≠ 401 := by
  unfold deposit at h
  extract_lets parts at h
  cases hparts : parts with
  | error e =>
    rw [hparts] at h
    exact status_of_runs_pure (status_ofError e) h
  | ok accounts =>
    rw [hparts] at h
    exact status_of_runs_executed h

theorem status_of_runs_withdraw {form : WithdrawForm}
    (h : Runs (withdraw client pair form) exchanges (response, after)) :
    response.status ≠ 401 := by
  unfold withdraw at h
  cases hamount : amountOf form.amount with
  | error e =>
    rw [hamount] at h
    exact status_of_runs_pure (status_ofError e) h
  | ok amount =>
    rw [hamount] at h
    exact status_of_runs_executed h

/-- A request that is carried out is never told that it has no key. -/
theorem status_of_runs_carryOut
    (h : Runs (carryOut client pair route request) exchanges (response, after)) :
    response.status ≠ 401 := by
  have hread : ∀ route, (if request.method == "HEAD" then (read client route).withhold
      else read client route).status ≠ 401 := by
    intro route
    split
    · rw [status_withhold]
      exact status_read client route
    · exact status_read client route
  cases route with
  | reload => exact status_of_runs_reload h
  | rebalance => exact status_of_runs_withForm (fun form => status_of_runs_executed) h
  | deposit => exact status_of_runs_withForm (fun form => status_of_runs_deposit) h
  | withdraw => exact status_of_runs_withForm (fun form => status_of_runs_withdraw) h
  | _ => exact status_of_runs_pure (hread _) h

/-- To be passed on and to be turned away are never the same. -/
theorem passedOn_ne_turnedAway :
    passedOn config state route request ≠ turnedAway config state request := by
  intro h
  have haway : Runs (turnedAway config state request) []
      (share config request (.bare 401), state.client) := .done _
  rw [← h] at haway
  obtain ⟨⟨response, client⟩, first, rest, -, hcarried, hrest⟩ := Dialogue.runs_bind_iff.1 haway
  obtain ⟨-, hresult⟩ := Dialogue.runs_done_iff.1 hrest
  have hstatus : (401 : Nat) = response.status :=
    congrArg (fun answered => answered.1.status) hresult
  exact status_of_runs_carryOut hcarried hstatus.symm

end

/-! ## The law -/

/-- Where the service is set up with a key, a request for a route of the vault is passed on to it
just if the first value of its key header is one of the keys. Any other is answered 401: the ledger
is asked nothing, and the client is left as it was. The state of health is told to everybody. -/
theorem only_a_listed_key_opens_the_vault {lookup : Lookup} {keys : String}
    (hkeys : lookup "API_KEYS" = some keys)
    (hsome : ∃ piece ∈ keys.toList.splitOn ',', ∃ c ∈ piece, ¬ Text.isBlank c)
    (state : State) {request : HttpRequest}
    (hfits : ∀ n, request.declaredLength? = some n → n ≤ bodyLimit) :
    (∀ route, Route.ofPath? request.path = some route → route ≠ .health →
      route.takes request.method →
        (handle (.ofLookup lookup) state request =
            passedOn (.ofLookup lookup) state route request ↔ request.Shows keys) ∧
        (¬ request.Shows keys → handle (.ofLookup lookup) state request =
            turnedAway (.ofLookup lookup) state request) ∧
        ((request.header? keyHeader).getD "" = "" → handle (.ofLookup lookup) state request =
            turnedAway (.ofLookup lookup) state request)) ∧
    (Route.ofPath? request.path = some .health → request.method = "GET" →
      handle (.ofLookup lookup) state request =
        pure (share (.ofLookup lookup) request (.ofJson 200 (Answer.health
          (if state.isBusy then none else some state.client.record) state.now)),
          state.client)) := by
  constructor
  · intro route hroute hguarded hmethod
    have hhandle : handle (.ofLookup lookup) state request =
        if isAdmitted (.ofLookup lookup) route request
        then passedOn (.ofLookup lookup) state route request
        else turnedAway (.ofLookup lookup) state request :=
      handle_eq hfits hroute hguarded hmethod
    have hadmitted := isAdmitted_iff hkeys hsome hguarded request
    by_cases hshows : request.Shows keys
    · rw [if_pos (hadmitted.2 hshows)] at hhandle
      refine ⟨⟨fun _ => hshows, fun _ => hhandle⟩, fun hnot => absurd hshows hnot, ?_⟩
      intro hempty
      obtain ⟨value, hvalue, -, hne, -⟩ := hshows
      rw [hvalue] at hempty
      exact absurd hempty hne
    · rw [if_neg (mt hadmitted.1 hshows)] at hhandle
      refine ⟨⟨fun hpassed => ?_, fun h => absurd h hshows⟩, fun _ => hhandle, fun _ => hhandle⟩
      exact absurd (hpassed.symm.trans hhandle) passedOn_ne_turnedAway
  · intro hroute hmethod
    have htakes : Route.health.takes request.method := by
      rw [hmethod]
      decide
    rw [handle_eq_dispatch hfits htakes]
    have hopen : isAdmitted (.ofLookup lookup) .health request := rfl
    have hget : (request.method == "HEAD") = false := by
      rw [hmethod]
      decide
    unfold dispatch
    simp [hroute, hopen, htakes, hget]

/-! ## A vault of two keys -/

namespace TwoKeys

def keys : String := "one, two,,"

def lookup : Lookup := fun name => if name = "API_KEYS" then some keys else none

def state : State := ⟨OneVenue.client, false, OneVenue.pair, 0⟩

/-- A deposit that shows a key, and then another one. -/
def deposit (key : String) : HttpRequest where
  method := "POST"
  target := "/api/vault/deposit"
  headers := [("X-Api-Key", key), ("x-api-key", "one")]
  body := []

theorem isAdmitted_deposit_two :
    isAdmitted (.ofLookup lookup) .deposit (deposit "two") := by decide +kernel

theorem isAdmitted_deposit_three :
    ¬ isAdmitted (.ofLookup lookup) .deposit (deposit "three") := by decide +kernel

theorem ofPath?_deposit (key : String) : Route.ofPath? (deposit key).path = some .deposit := by
  have hpath : (deposit key).path = (deposit "one").path := rfl
  rw [hpath]
  decide +kernel

theorem the_first_key_shown_opens_the_vault :
    lookup "API_KEYS" = some keys ∧
    (∃ piece ∈ keys.toList.splitOn ',', ∃ c ∈ piece, ¬ Text.isBlank c) ∧
    (deposit "two").declaredLength? = none ∧ (deposit "three").declaredLength? = none ∧
    handle (.ofLookup lookup) state (deposit "two") =
      passedOn (.ofLookup lookup) state .deposit (deposit "two") ∧
    handle (.ofLookup lookup) state (deposit "three") =
      turnedAway (.ofLookup lookup) state (deposit "three") := by
  have hkeys : lookup "API_KEYS" = some keys := rfl
  have hpieces : keys.toList.splitOn ',' = ["one".toList, " two".toList, [], []] := by
    decide +kernel
  have hsome : ∃ piece ∈ keys.toList.splitOn ',', ∃ c ∈ piece, ¬ Text.isBlank c :=
    ⟨"one".toList, by rw [hpieces]; exact List.mem_cons_self, 'o', by decide, by decide⟩
  have htwo : (deposit "two").declaredLength? = none := by decide +kernel
  have hthree : (deposit "three").declaredLength? = none := by decide +kernel
  have htakes : ∀ key, Route.deposit.takes (deposit key).method := fun _ => rfl
  have hguarded : Route.deposit ≠ .health := by decide
  have hlaw := fun key (hnone : (deposit key).declaredLength? = none) =>
    (only_a_listed_key_opens_the_vault hkeys hsome state
      (show ∀ n, (deposit key).declaredLength? = some n → n ≤ bodyLimit by simp [hnone])).1
      .deposit (ofPath?_deposit key) hguarded (htakes key)
  have hadmitted := fun key => isAdmitted_iff hkeys hsome hguarded (deposit key)
  refine ⟨hkeys, hsome, htwo, hthree, ?_, ?_⟩
  · exact (hlaw "two" htwo).1.2 ((hadmitted "two").1 isAdmitted_deposit_two)
  · exact (hlaw "three" hthree).2.1 (mt (hadmitted "three").2 isAdmitted_deposit_three)

end TwoKeys

end Service

end YieldVault
