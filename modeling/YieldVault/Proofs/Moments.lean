-- The law of moments: a reading takes each of its three accounts as it stands when it
-- is asked for. Others may change the vault between two questions, and then the record
-- is of no single state of the ledger.
import YieldVault.Proofs.Transactions

namespace YieldVault

/-! ## A ledger that others use -/

/-- The accounts of a ledger at some moment. -/
abbrev Accounts := Key → Option StoredAccount

/-- Whether accounts are asked for while a ledger goes through some states, one after another: every
question is answered by the state that the ledger is in by then, unless the answer is lost. -/
inductive Along : List Accounts → List Exchange → Prop
  | done (states : List Accounts) : Along states []
  /-- Others change the ledger, as much of it at once as they like. -/
  | change {now : Accounts} {states : List Accounts} {exchanges : List Exchange} :
      Along states exchanges → Along (now :: states) exchanges
  | answer {now : Accounts} {states : List Accounts} {exchanges : List Exchange} (address : Key) :
      Along (now :: states) exchanges →
      Along (now :: states) (⟨.account address, .ok (now address)⟩ :: exchanges)
  | lost {states : List Accounts} {exchanges : List Exchange} (address : Key) (e : Error) :
      Along states exchanges → Along states (⟨.account address, .error e⟩ :: exchanges)

variable {states : List Accounts} {exchanges : List Exchange}

/-- An answer is that of some state, and the ledger is in no earlier one from then on. -/
theorem along_answer_iff {address : Key} {found : Option StoredAccount} :
    Along states (⟨.account address, .ok found⟩ :: exchanges) ↔
      ∃ (i : Nat) (now : Accounts), states[i]? = some now ∧ found = now address ∧
        Along (states.drop i) exchanges := by
  constructor
  · intro h
    generalize hall : (⟨.account address, .ok found⟩ :: exchanges : List Exchange) = all at h
    induction h with
    | done => cases hall
    | change _ ih =>
      obtain ⟨i, now, hnow, hfound, hlater⟩ := ih hall
      exact ⟨i + 1, now, hnow, hfound, hlater⟩
    | answer _ hlater _ =>
      cases hall
      exact ⟨0, _, rfl, rfl, hlater⟩
    | lost => cases hall
  · rintro ⟨i, now, hnow, rfl, hlater⟩
    induction states generalizing i with
    | nil => cases hnow
    | cons first states ih =>
      cases i with
      | zero =>
        cases hnow
        exact .answer address hlater
      | succ i => exact .change (ih i hnow hlater)

/-! ## Records of several moments -/

/-- Whether a record is made of a vault's account as of one state of the ledger, of its share mint as
of a second and of its reserve account as of a third. -/
def VaultRecord.MadeOf (vault : Key) (version : Nat) (first second third : Accounts)
    (record : VaultRecord) : Prop :=
  ∃ stored mint reserve account, first vault = some stored ∧
    VaultAccount.decode vault stored.data = .ok account ∧
    second account.shareMint = some mint ∧ third account.reserveToken = some reserve ∧
    VaultRecord.assemble vault version account mint.data reserve.data = .ok record

/-- Whether a record is that of the vault in one state of the ledger. -/
def Accounts.Shows (now : Accounts) (vault : Key) (version : Nat) (record : VaultRecord) : Prop :=
  record.MadeOf vault version now now now

theorem VaultRecord.assemble_eq_ok {vault : Key} {version : Nat} {account : VaultAccount}
    {mintData reserveData : Bytes} {record : VaultRecord}
    (h : assemble vault version account mintData reserveData = .ok record) :
    record.account = account ∧ mintSupply account.shareMint mintData = .ok record.shareSupply := by
  obtain ⟨supply, hsupply, h⟩ := Except.bind_eq_ok_iff.1 h
  obtain ⟨unallocated, -, h⟩ := Except.bind_eq_ok_iff.1 h
  cases h
  exact ⟨rfl, hsupply⟩

variable {vault : Key} {version : Nat} {first second third : Accounts} {record : VaultRecord}

/-- Where the share mint and the reserve account are what they were, the record is that of the state
that the vault account was read in. -/
theorem VaultRecord.MadeOf.shows (h : record.MadeOf vault version first second third)
    (hmint : second record.account.shareMint = first record.account.shareMint)
    (hreserve : third record.account.reserveToken = first record.account.reserveToken) :
    first.Shows vault version record := by
  obtain ⟨stored, mint, reserve, account, hstored, hdecoded, hsecond, hthird, hassembled⟩ := h
  rw [(VaultRecord.assemble_eq_ok hassembled).1] at hmint hreserve
  exact ⟨stored, mint, reserve, account, hstored, hdecoded, hmint ▸ hsecond, hreserve ▸ hthird,
    hassembled⟩

/-- Where only the share mint is what it was, the rate is still that of the first state. -/
theorem VaultRecord.MadeOf.rate_eq (h : record.MadeOf vault version first second third)
    (hmint : second record.account.shareMint = first record.account.shareMint)
    {shown : VaultRecord} (hshown : first.Shows vault version shown) : shown.rate = record.rate := by
  obtain ⟨stored, mint, reserve, account, hstored, hdecoded, hsecond, -, hassembled⟩ := h
  obtain ⟨stored', mint', reserve', account', hstored', hdecoded', hsecond', -, hassembled'⟩ := hshown
  obtain ⟨haccount, hsupply⟩ := VaultRecord.assemble_eq_ok hassembled
  obtain ⟨haccount', hsupply'⟩ := VaultRecord.assemble_eq_ok hassembled'
  rw [hstored] at hstored'
  cases hstored'
  rw [hdecoded] at hdecoded'
  cases hdecoded'
  rw [haccount, hsecond, hsecond'] at hmint
  cases hmint
  have hsame : record.shareSupply = shown.shareSupply :=
    Except.ok.inj (hsupply.symm.trans hsupply')
  unfold rate totalValue
  rw [haccount, haccount', hsame]

/-- Whether one state comes after another among some, or is the same. -/
def Later (states : List Accounts) (first second third : Accounts) : Prop :=
  ∃ i j k : Nat, i ≤ j ∧ j ≤ k ∧ states[i]? = some first ∧ states[j]? = some second ∧
    states[k]? = some third

theorem exists_along_load_iff :
    (∃ exchanges, Along states exchanges ∧
      Call.Runs (VaultRecord.load vault version) exchanges (.ok record)) ↔
    ∃ first second third, Later states first second third ∧
      record.MadeOf vault version first second third := by
  constructor
  · rintro ⟨exchanges, halong, hrun⟩
    obtain ⟨stored, mint, reserve, account, rfl, hdecoded, hassembled⟩ :=
      VaultRecord.runs_load_iff.1 hrun
    obtain ⟨i, first, hfirst, hstored, halong⟩ := along_answer_iff.1 halong
    obtain ⟨j, second, hsecond, hmint, halong⟩ := along_answer_iff.1 halong
    obtain ⟨k, third, hthird, hreserve, -⟩ := along_answer_iff.1 halong
    rw [List.getElem?_drop] at hsecond
    rw [List.drop_drop, List.getElem?_drop] at hthird
    exact ⟨first, second, third, ⟨i, i + j, i + j + k, by omega, by omega, hfirst, hsecond, hthird⟩,
      stored, mint, reserve, account, hstored.symm, hdecoded, hmint.symm, hreserve.symm, hassembled⟩
  · rintro ⟨first, second, third, ⟨i, j, k, hij, hjk, hfirst, hsecond, hthird⟩, stored, mint,
      reserve, account, hstored, hdecoded, hmint, hreserve, hassembled⟩
    refine ⟨_, ?_, VaultRecord.runs_load_iff.2
      ⟨stored, mint, reserve, account, rfl, hdecoded, hassembled⟩⟩
    refine along_answer_iff.2 ⟨i, first, hfirst, hstored.symm, ?_⟩
    refine along_answer_iff.2 ⟨j - i, second, ?_, hmint.symm, ?_⟩
    · rwa [List.getElem?_drop, Nat.add_sub_cancel' hij]
    refine along_answer_iff.2 ⟨k - j, third, ?_, hreserve.symm, .done _⟩
    rwa [List.drop_drop, List.getElem?_drop, Nat.add_sub_cancel' hij, Nat.add_sub_cancel' hjk]

/-- While others use the vault, a reading that goes well may be made of any three states of the
ledger that came in this order: its vault account of the first, its share supply of the second and
its unallocated reserve of the third. It is of the first state alone if the share mint and the
reserve account were left as they were, and its rate is if the share mint was. -/
theorem a_reading_takes_each_account_as_of_its_own_moment {states : List Accounts} {vault : Key}
    {version : Nat} {record : VaultRecord} :
    ((∃ exchanges, Along states exchanges ∧
      Call.Runs (VaultRecord.load vault version) exchanges (.ok record)) ↔
    ∃ first second third, Later states first second third ∧
      record.MadeOf vault version first second third) ∧
    ∀ first second third, record.MadeOf vault version first second third →
      second record.account.shareMint = first record.account.shareMint →
      (∀ shown, first.Shows vault version shown → shown.rate = record.rate) ∧
      (third record.account.reserveToken = first record.account.reserveToken →
        first.Shows vault version record) := by
  refine ⟨exists_along_load_iff, fun first second third hmade hmint => ⟨?_, ?_⟩⟩
  · intro shown hshown
    exact hmade.rate_eq hmint hshown
  · intro hreserve
    exact hmade.shows hmint hreserve

/-! ## A deposit between two questions -/

namespace SharedVault

/-- A vault whose accounts are told apart. -/
def account (total : UInt64) : VaultAccount :=
  { OneVenue.account total with shareMint := .ofNat 1, reserveToken := .ofNat 2 }

/-- The ledger when the vault has some total, some shares and some reserve at hand. -/
def moment (total supply reserve : UInt64) : Accounts := fun address =>
  if address = .ofNat 0 then some ⟨1, (account total).encode, default⟩
  else if address = .ofNat 1 then some ⟨1, Token.mintData supply, default⟩
  else if address = .ofNat 2 then
    some ⟨1, Token.holdingData Key.nativeMint.bytes Key.nativeMint.bytes reserve, default⟩
  else none

theorem moment_vault (total supply reserve : UInt64) :
    moment total supply reserve (.ofNat 0) = some ⟨1, (account total).encode, default⟩ :=
  if_pos rfl

theorem moment_shareMint (total supply reserve : UInt64) :
    moment total supply reserve (.ofNat 1) = some ⟨1, Token.mintData supply, default⟩ := by
  rw [moment, if_neg (by decide), if_pos rfl]

theorem moment_reserveToken (total supply reserve : UInt64) :
    moment total supply reserve (.ofNat 2) =
      some ⟨1, Token.holdingData Key.nativeMint.bytes Key.nativeMint.bytes reserve, default⟩ := by
  rw [moment, if_neg (by decide), if_neg (by decide), if_pos rfl]

/-- The record of some numbers. -/
def recordAt (total supply reserve : UInt64) : VaultRecord :=
  ⟨.ofNat 0, 1, account total, supply, reserve⟩

/-- A record made of such states has the numbers of each. -/
theorem madeOf_moment_iff {t1 s1 r1 t2 s2 r2 t3 s3 r3 : UInt64} {made : VaultRecord}
    (hassembled : VaultRecord.assemble (.ofNat 0) 1 (account t1) (Token.mintData s2)
      (Token.holdingData Key.nativeMint.bytes Key.nativeMint.bytes r3) = .ok (recordAt t1 s2 r3)) :
    made.MadeOf (.ofNat 0) 1 (moment t1 s1 r1) (moment t2 s2 r2) (moment t3 s3 r3) ↔
      made = recordAt t1 s2 r3 := by
  have hdecoded : VaultAccount.decode (.ofNat 0) (account t1).encode = .ok (account t1) := by
    simpa using (account t1).decode_encode (.ofNat 0) []
  constructor
  · rintro ⟨stored, mint, reserve, decoded, hstored, hdecoded', hmint, hreserve, hmade⟩
    rw [moment_vault] at hstored
    cases hstored
    rw [hdecoded] at hdecoded'
    cases hdecoded'
    rw [show (account t1).shareMint = .ofNat 1 from rfl, moment_shareMint] at hmint
    cases hmint
    rw [show (account t1).reserveToken = .ofNat 2 from rfl, moment_reserveToken] at hreserve
    cases hreserve
    exact Except.ok.inj (hmade.symm.trans hassembled)
  · rintro rfl
    exact ⟨_, _, _, account t1, moment_vault _ _ _, hdecoded, moment_shareMint _ _ _,
      moment_reserveToken _ _ _, hassembled⟩

def before : Accounts := moment 1000 1000 0

/-- Somebody has paid in 1000 units, for 1000 shares. -/
def after : Accounts := moment 2000 2000 1000

/-- The deposit falls between the question for the vault account and that for the share mint. -/
theorem a_deposit_between_two_questions_is_half_seen :
    (∃ exchanges, Along [before, after] exchanges ∧
      Call.Runs (VaultRecord.load (.ofNat 0) 1) exchanges (.ok (recordAt 1000 2000 1000))) ∧
    (recordAt 1000 2000 1000).rate = ⟨1000, 2000⟩ ∧
    ∀ now ∈ [before, after], ¬ now.Shows (.ofNat 0) 1 (recordAt 1000 2000 1000) ∧
      ∀ shown, now.Shows (.ofNat 0) 1 shown → shown.rate.value = shown.rate.shares := by
  have hbefore : ∀ made, before.Shows (.ofNat 0) 1 made ↔ made = recordAt 1000 1000 0 :=
    fun made => madeOf_moment_iff (by decide +kernel)
  have hafter : ∀ made, after.Shows (.ofNat 0) 1 made ↔ made = recordAt 2000 2000 1000 :=
    fun made => madeOf_moment_iff (by decide +kernel)
  have htorn : (recordAt 1000 2000 1000).MadeOf (.ofNat 0) 1 before after after :=
    (madeOf_moment_iff (by decide +kernel)).2 rfl
  refine ⟨?_, rfl, ?_⟩
  · exact exists_along_load_iff.2
      ⟨before, after, after, ⟨0, 1, 1, by decide, by decide, rfl, rfl, rfl⟩, htorn⟩
  · intro now hnow
    simp only [List.mem_cons, List.not_mem_nil, or_false] at hnow
    rcases hnow with rfl | rfl
    · rw [hbefore]
      refine ⟨by decide, ?_⟩
      intro shown hshown
      rw [(hbefore shown).1 hshown]
      rfl
    · rw [hafter]
      refine ⟨by decide, ?_⟩
      intro shown hshown
      rw [(hafter shown).1 hshown]
      rfl

end SharedVault

end YieldVault
