-- The law of reversions: a transaction that fails when it is simulated is told as the
-- ledger reported it, with the code of the program, the message and the logs, unless
-- the node returned an account whose data cannot be told. That is told in its place.
import YieldVault.Proofs.Outcomes
import YieldVault.Rpc.Node

namespace YieldVault

/-! ## Returned accounts -/

namespace NodeAccount

/-- Whether the data of a simulated account can be told: they are in base 64. -/
def Legible (account : NodeAccount) : Prop :=
  ∃ text data, account.data = .encoded text .base64 ∧ Base64.decode (Bytes.ofText text) = .ok data

/-- Why the data of a simulated account cannot be told. -/
inductive Illegible (account : NodeAccount) : DecodeFault → Prop
  | foreign : (∀ text, account.data ≠ .encoded text .base64) → Illegible account .notBase64
  | spoiled {text : String} {fault : Base64.Fault} :
      account.data = .encoded text .base64 →
      Base64.decode (Bytes.ofText text) = .error fault → Illegible account (.base64 fault)

variable {account : NodeAccount} {address : Key}

theorem simulatedData_of_base64 {text : String} (h : account.data = .encoded text .base64) :
    simulatedData address account =
      (Base64.decode (Bytes.ofText text)).mapError (.accountDecode address <| .base64 ·) := by
  unfold simulatedData
  rw [h]

theorem simulatedData_of_foreign (h : ∀ text, account.data ≠ .encoded text .base64) :
    simulatedData address account = .error (.accountDecode address .notBase64) := by
  unfold simulatedData
  split
  · rename_i text htext
    exact absurd htext (h text)
  · rfl

theorem exists_simulatedData_iff :
    (∃ data, simulatedData address account = .ok data) ↔ account.Legible := by
  by_cases hforeign : ∀ text, account.data ≠ .encoded text .base64
  · rw [simulatedData_of_foreign hforeign]
    constructor
    · rintro ⟨_, ⟨⟩⟩
    · rintro ⟨text, _, htext, -⟩
      exact absurd htext (hforeign text)
  · obtain ⟨text, htext⟩ := not_forall_not.1 hforeign
    rw [simulatedData_of_base64 htext]
    unfold Legible
    rw [htext]
    cases hdecoded : Base64.decode (Bytes.ofText text) <;> simp [Except.mapError, hdecoded]

/-- What cannot be told is told as a fault of that account. -/
theorem illegible_of_simulatedData {e : Error} (h : simulatedData address account = .error e) :
    ∃ cause, account.Illegible cause ∧ e = .accountDecode address cause := by
  by_cases hforeign : ∀ text, account.data ≠ .encoded text .base64
  · rw [simulatedData_of_foreign hforeign] at h
    cases h
    exact ⟨.notBase64, .foreign hforeign, rfl⟩
  · obtain ⟨text, htext⟩ := not_forall_not.1 hforeign
    rw [simulatedData_of_base64 htext] at h
    cases hdecoded : Base64.decode (Bytes.ofText text) with
    | ok data =>
      rw [hdecoded] at h
      cases h
    | error fault =>
      rw [hdecoded] at h
      cases h
      exact ⟨.base64 fault, .spoiled htext hdecoded, rfl⟩

end NodeAccount

/-- The data of one returned account beside the address that was asked for, if there is one. -/
def returnedDatum : Option NodeAccount × Key → Except Error (Option Bytes)
  | (account, address) => account.mapM (NodeAccount.simulatedData address)

theorem returnedDatum_some (account : NodeAccount) (address : Key) :
    returnedDatum (some account, address) = (account.simulatedData address).map some := rfl

theorem returnedData_eq_mapM (accounts : List (Option NodeAccount)) (addresses : List Key) :
    returnedData accounts addresses = (accounts.zip addresses).mapM returnedDatum := by
  induction accounts generalizing addresses with
  | nil => rfl
  | cons account accounts ih =>
    cases addresses with
    | nil => rfl
    | cons address addresses =>
      rw [returnedData, ih, List.zip_cons_cons, List.mapM_cons]
      rfl

/-- Whether nothing stands in the way of the data of returned accounts. -/
def AllLegible (returned : List (Option NodeAccount × Key)) : Prop :=
  ∀ account address, (some account, address) ∈ returned → account.Legible

theorem allLegible_iff {returned : List (Option NodeAccount × Key)} :
    AllLegible returned ↔ ∀ pair ∈ returned, ∃ data, returnedDatum pair = .ok data := by
  constructor
  · rintro h ⟨account, address⟩ hmem
    cases account with
    | none => exact ⟨none, rfl⟩
    | some account =>
      obtain ⟨data, hdata⟩ : ∃ data, account.simulatedData address = .ok data :=
        NodeAccount.exists_simulatedData_iff.2 (h account address hmem)
      exact ⟨some data, by rw [returnedDatum_some, hdata]; rfl⟩
  · intro h account address hmem
    obtain ⟨data, hdata⟩ := h _ hmem
    rw [returnedDatum_some, Except.map_eq_ok_iff] at hdata
    obtain ⟨bytes, hbytes, -⟩ := hdata
    exact NodeAccount.exists_simulatedData_iff.1 ⟨bytes, hbytes⟩

/-- Returned accounts have their data told, or the first of them that has not is told as a fault. -/
theorem mapM_returnedDatum_cases (returned : List (Option NodeAccount × Key)) :
    (AllLegible returned ∧ ∃ data, returned.mapM returnedDatum = .ok data) ∨
    ∃ earlier account address later cause,
      returned = earlier ++ (some account, address) :: later ∧ AllLegible earlier ∧
      account.Illegible cause ∧
      returned.mapM returnedDatum = .error (.accountDecode address cause) := by
  cases hdata : returned.mapM returnedDatum with
  | ok data =>
    exact .inl ⟨allLegible_iff.2 (Except.exists_of_mapM_eq_ok hdata), data, rfl⟩
  | error e =>
    obtain ⟨earlier, ⟨account, address⟩, later, rfl, hearlier, hbad⟩ :=
      Except.exists_of_mapM_eq_error hdata
    cases account with
    | none => cases hbad
    | some account =>
      have hfault : account.simulatedData address = .error e := by
        rw [returnedDatum_some] at hbad
        cases htold : account.simulatedData address <;> rw [htold] at hbad <;> cases hbad
        rfl
      obtain ⟨cause, hcause, rfl⟩ := NodeAccount.illegible_of_simulatedData hfault
      exact .inr ⟨earlier, account, address, later, cause, rfl, allLegible_iff.2 hearlier, hcause,
        rfl⟩

/-! ## Simulations -/

namespace NodeSimulation

/-- The returned accounts beside the addresses that were asked for, as far as there are both. -/
def returned (s : NodeSimulation) (requested : List Key) : List (Option NodeAccount × Key) :=
  (s.accounts.getD []).zip requested

/-- A simulation of a failed transaction, once nothing stood in the way of its accounts, is told as
that failure. -/
theorem accepted_outcome {s : NodeSimulation} {fault : TransactionFault} (requested : List Key)
    (hfault : s.fault = some fault) :
    s.outcome requested >>= Simulation.accepted =
      (s.returned requested).mapM returnedDatum >>= fun _ =>
        .error (.simulationReverted fault.customCode? fault.message (s.logs.getD [])) := by
  unfold outcome returned
  rw [hfault]
  cases s.accounts with
  | none => rfl
  | some accounts =>
    simp only [returnedData_eq_mapM, Option.getD_some]
    cases (accounts.zip requested).mapM returnedDatum <;> rfl

end NodeSimulation

theorem NodeClient.simulate_of_read {client : NodeClient} {requested : List Key} {line : NodeLine}
    {json : Json} {rest : List NodeReply} {s : NodeSimulation}
    (hreply : line.replies = .ok json :: rest)
    (hread : readValue ⟨none, none, none⟩ NodeSimulation.read json = .ok s) :
    (client.simulate requested line).1 = s.outcome requested := by
  unfold simulate NodeLine.ask
  rw [hreply]
  simp only [Except.bind, hread]
  rfl

/-! ## The law -/

/-- Whatever accounts a node returns with a transaction that failed when it was simulated: the
failure is told as such, with its code, its message and the logs, just where the data of every
account can be told that was returned for an address. Otherwise the first account whose data cannot
be told is, and nothing of the failure. -/
theorem a_reversion_is_told_unless_an_account_is_illegible {client : NodeClient}
    {requested : List Key} {line : NodeLine} {json : Json} {rest : List NodeReply}
    {s : NodeSimulation} {fault : TransactionFault}
    (hreply : line.replies = .ok json :: rest)
    (hread : readValue ⟨none, none, none⟩ NodeSimulation.read json = .ok s)
    (hfault : s.fault = some fault) :
    ((client.simulate requested line).1 >>= Simulation.accepted =
        .error (.simulationReverted fault.customCode? fault.message (s.logs.getD [])) ↔
      AllLegible (s.returned requested)) ∧
    (¬ AllLegible (s.returned requested) →
      ∃ earlier account address later cause,
        s.returned requested = earlier ++ (some account, address) :: later ∧
        AllLegible earlier ∧ account.Illegible cause ∧
        (client.simulate requested line).1 >>= Simulation.accepted =
          .error (.accountDecode address cause)) := by
  rw [NodeClient.simulate_of_read hreply hread, NodeSimulation.accepted_outcome requested hfault]
  rcases mapM_returnedDatum_cases (s.returned requested) with
    ⟨hall, data, hdata⟩ | ⟨earlier, account, address, later, cause, hsplit, hearlier, hcause, hdata⟩
  · rw [hdata]
    exact ⟨⟨fun _ => hall, fun _ => rfl⟩, fun hnot => absurd hall hnot⟩
  · have hnot : ¬ AllLegible (s.returned requested) := by
      intro hall
      obtain ⟨data, hok⟩ := Except.exists_mapM_eq_ok (allLegible_iff.1 hall)
      rw [hdata] at hok
      cases hok
    rw [hdata]
    refine ⟨⟨?_, fun hall => absurd hall hnot⟩, fun _ => ?_⟩
    · rintro ⟨⟩
    · exact ⟨earlier, account, address, later, cause, hsplit, hearlier, hcause, rfl⟩

namespace CapExceeded

open Json.Tree

/-- A failure of the third instruction, with a code of its program. -/
def fault : TransactionFault := .instruction 2 (.custom 6003)

def log : String := "Program log: AllocationCapExceeded"

def encodingName : DataEncoding → String
  | .binary => "binary"
  | .base58 => "base58"
  | .base64 => "base64"
  | .jsonParsed => "jsonParsed"
  | .base64Zstd => "base64+zstd"

/-- An account without data, as it is returned in some encoding. -/
def accountJson (encoding : DataEncoding) : Json :=
  .ofFields [("data", .array [.text "", .text (encodingName encoding)]),
    ("executable", .bool false), ("lamports", .nat 5), ("owner", .text Key.systemProgram.text),
    ("rentEpoch", .nat 0)]

def simulationJson (encoding : DataEncoding) : Json :=
  .ofFields [("accounts", .array [accountJson encoding]),
    ("err", .ofFields [("InstructionError", .array [.nat 2, .ofFields [("Custom", .nat 6003)]])]),
    ("logs", .array [.text log])]

/-- What a node answers that has run the failing transaction. -/
def response (encoding : DataEncoding) : Json :=
  .ofFields [("context", .ofFields [("slot", .nat 1)]), ("value", simulationJson encoding)]

def simulation (encoding : DataEncoding) : NodeSimulation :=
  ⟨some fault, some [log], some [some ⟨5, .encoded "" encoding, Key.systemProgram.text⟩]⟩

theorem read_accountJson (encoding : DataEncoding) :
    NodeAccount.read (accountJson encoding) =
      .ok ⟨5, .encoded "" encoding, Key.systemProgram.text⟩ := by
  cases encoding <;>
  · simp [NodeAccount.read, accountJson, Json.ofFields, readRecord, readMembers, List.mergeSort,
      List.MergeSort.Internal.splitInTwo, RecordField.checked, RecordField.required,
      RecordField.mayBe, RecordField.optional]
    rfl

theorem read_simulationJson (encoding : DataEncoding) :
    NodeSimulation.read (simulationJson encoding) = .ok (simulation encoding) := by
  have haccounts :
      readOption (readItems (readOption NodeAccount.read)) (.array [accountJson encoding]) =
        .ok (some [some ⟨5, .encoded "" encoding, Key.systemProgram.text⟩]) := by
    have hsome : readOption NodeAccount.read (accountJson encoding) =
        some <$> NodeAccount.read (accountJson encoding) := rfl
    rw [readOption, readItems, List.mapM_cons, hsome, read_accountJson]
    · rfl
    · nofun
  simp [NodeSimulation.read, simulationJson, Json.ofFields, readRecord, readMembers, List.mergeSort,
    List.MergeSort.Internal.splitInTwo, RecordField.mayBe, RecordField.optional, takeMember, member?]
  rw [haccounts]
  rfl

theorem read_response (encoding : DataEncoding) :
    readValue ⟨none, none, none⟩ NodeSimulation.read (response encoding) =
      .ok (simulation encoding) := by
  have hcontext : readContext (.object [(some "slot", .nat 1)]) = .ok () := by
    simp [readContext, readRecord, readMembers, List.mergeSort,
      List.MergeSort.Internal.splitInTwo, RecordField.checked, RecordField.required,
      RecordField.mayBe, RecordField.optional]
    rfl
  simp [readValue, readResponse, response, Json.ofFields, readRecord, readMembers, List.mergeSort,
    List.MergeSort.Internal.splitInTwo, RecordField.checked, RecordField.required, takeMember,
    member?]
  rw [read_simulationJson, hcontext]
  rfl

def client : NodeClient := ⟨⟨default, default⟩, .confirmed⟩

def line (encoding : DataEncoding) : NodeLine := ⟨[.ok (response encoding)], []⟩

/-- Beside an account in base 64 the failure is told. -/
theorem a_reversion_is_told_beside_an_account_in_base64 :
    (line .base64).replies = [.ok (response .base64)] ∧
    readValue ⟨none, none, none⟩ NodeSimulation.read (response .base64) =
      .ok (simulation .base64) ∧
    (simulation .base64).fault = some fault ∧
    AllLegible ((simulation .base64).returned [default]) ∧
    (client.simulate [default] (line .base64)).1 >>= Simulation.accepted =
      .error (.simulationReverted (some 6003) fault.message [log]) := by
  have hall : AllLegible ((simulation .base64).returned [default]) := by
    intro account address hmem
    cases List.mem_singleton.1 hmem
    have hempty : Bytes.ofText "" = [] := by decide +kernel
    exact ⟨"", [], rfl, by rw [hempty]; rfl⟩
  exact ⟨rfl, read_response .base64, rfl, hall,
    (a_reversion_is_told_unless_an_account_is_illegible rfl (read_response .base64) rfl).1.2 hall⟩

/-- Beside an account in base 58 it is not. -/
theorem a_reversion_is_not_told_beside_an_account_in_base58 :
    (line .base58).replies = [.ok (response .base58)] ∧
    readValue ⟨none, none, none⟩ NodeSimulation.read (response .base58) =
      .ok (simulation .base58) ∧
    (simulation .base58).fault = some fault ∧
    (client.simulate [default] (line .base58)).1 >>= Simulation.accepted =
      .error (.accountDecode default .notBase64) ∧
    (client.simulate [default] (line .base58)).1 >>= Simulation.accepted ≠
      .error (.simulationReverted (some 6003) fault.message [log]) := by
  have htold : (client.simulate [default] (line .base58)).1 >>= Simulation.accepted =
      .error (.accountDecode default .notBase64) := by
    rw [NodeClient.simulate_of_read rfl (read_response .base58)]
    rfl
  refine ⟨rfl, read_response .base58, rfl, htold, ?_⟩
  rw [htold]
  nofun

end CapExceeded

end YieldVault
