-- The laws of instructions: those of a vault's program are told apart by their tags,
-- since no two of their names have one tag; and a refresh or a reconcile tells the
-- venue that it is about, its reserve and the holding of the vault there.
import Mathlib.Data.List.Nodup
import YieldVault.Adapter
import YieldVault.Proofs.Digests

namespace YieldVault

/-! ## Names -/

namespace Venue

/-- The name of the instruction that refreshes a venue. -/
def refreshName (v : Venue) : String := s!"refresh_{v.name}"

/-- The name of the instruction that reconciles a venue. -/
def reconcileName (v : Venue) : String := s!"reconcile_{v.name}"

end Venue

namespace Instruction

/-- The names of the instructions of a vault's program. -/
def names : List String :=
  Venue.all.map Venue.refreshName ++ Venue.all.map Venue.reconcileName ++
    ["consolidate_refresh", "rebalance", "deposit", "withdraw"]

theorem refreshName_mem (v : Venue) : v.refreshName ∈ names :=
  List.mem_append_left _ (List.mem_append_left _ (List.mem_map_of_mem v.mem_all))

theorem reconcileName_mem (v : Venue) : v.reconcileName ∈ names :=
  List.mem_append_left _ (List.mem_append_right _ (List.mem_map_of_mem v.mem_all))

/-- The bytes that the instructions of the other programs open with. -/
def foreignHeads : List UInt8 := [0, 1, 9, 18]

-- One statement for both, so that the digests are worked out once.
theorem tags_apart : (names.map instructionTag).Nodup ∧
    ∀ tag ∈ names.map instructionTag, ∀ b ∈ foreignHeads, tag.head? ≠ some b := by
  decide +kernel

theorem nodup_tags : (names.map instructionTag).Nodup := tags_apart.1

theorem head?_instructionTag_ne {name : String} (hname : name ∈ names) {b : UInt8}
    (hb : b ∈ foreignHeads) : (instructionTag name).head? ≠ some b :=
  tags_apart.2 _ (List.mem_map_of_mem hname) b hb

theorem instructionTag_inj {name name' : String} (hname : name ∈ names) (hname' : name' ∈ names)
    (h : instructionTag name = instructionTag name') : name = name' :=
  List.inj_on_of_nodup_map nodup_tags hname hname' h

variable {keys keys' : VaultKeys} {name name' : String} {arguments arguments' : Bytes}
  {accounts accounts' : List AccountMeta}

/-- An instruction of the program tells its name, its arguments and its accounts. -/
theorem named_inj (hname : name ∈ names) (hname' : name' ∈ names)
    (h : named keys name arguments accounts = named keys' name' arguments' accounts') :
    name = name' ∧ arguments = arguments' ∧ accounts = accounts' := by
  simp only [named, Instruction.mk.injEq] at h
  obtain ⟨-, haccounts, hdata⟩ := h
  have hlength : (instructionTag name).length = (instructionTag name').length := by
    rw [instructionTag, instructionTag, length_nameTag, length_nameTag]
  obtain ⟨htag, harguments⟩ := List.append_inj hdata hlength
  exact ⟨instructionTag_inj hname hname' htag, harguments, haccounts⟩

/-- The data of an instruction of the program open with the tag of its name, and with no other. -/
theorem take_data_named_iff (hname : name ∈ names) (hname' : name' ∈ names) :
    (named keys name arguments accounts).data.take 8 = instructionTag name' ↔ name = name' := by
  have htake : (named keys name arguments accounts).data.take 8 = instructionTag name := by
    unfold named
    apply List.take_left'
    rw [instructionTag, length_nameTag]
  rw [htake]
  constructor
  · exact instructionTag_inj hname hname'
  · rintro rfl
    rfl

/-- Instructions of the other programs are told from those of the vault's by their first byte. -/
theorem take_data_ne_of_head {i : Instruction} {b : UInt8} (hhead : i.data.head? = some b)
    (hb : b ∈ foreignHeads) (hname : name ∈ names) : i.data.take 8 ≠ instructionTag name := by
  intro htag
  apply head?_instructionTag_ne hname hb
  rw [← htag, List.head?_take, if_neg (by decide), hhead]

theorem length_data_named (keys : VaultKeys) (name : String) (arguments : Bytes)
    (accounts : List AccountMeta) :
    (named keys name arguments accounts).data.length = 8 + arguments.length := by
  rw [named, List.length_append, instructionTag, length_nameTag]

end Instruction

namespace Venue

theorem refreshName_inj : ∀ {v w : Venue}, v.refreshName = w.refreshName → v = w := by
  have h : ∀ v ∈ all, ∀ w ∈ all, v.refreshName = w.refreshName → v = w := by decide
  intro v w
  exact h v v.mem_all w w.mem_all

theorem reconcileName_inj : ∀ {v w : Venue}, v.reconcileName = w.reconcileName → v = w := by
  have h : ∀ v ∈ all, ∀ w ∈ all, v.reconcileName = w.reconcileName → v = w := by decide
  intro v w
  exact h v v.mem_all w w.mem_all

theorem refreshName_ne_reconcileName (v w : Venue) : v.refreshName ≠ w.reconcileName := by
  have h : ∀ v ∈ all, ∀ w ∈ all, v.refreshName ≠ w.reconcileName := by decide
  exact h v v.mem_all w w.mem_all

end Venue

/-- The arguments of a rebalance hold two bytes for each venue, in venue order. -/
theorem Instruction.weightBytes_eq (weights : Option Weights) :
    weightBytes weights =
      Venue.all.flatMap fun v => Bytes.ofNat 2 ((weights.getD .none).bps v).toNat := by
  cases weights <;> rfl

/-! ## Refreshes and reconciles -/

namespace Handle

variable {h h' : Handle} {keys keys' : VaultKeys}

/-- A venue is refreshed under the venue's own name. -/
theorem refresh_eq (h : Handle) (keys : VaultKeys) :
    h.refresh keys = .named keys h.adapter.venue.refreshName [] (h.refreshAccounts keys) := by
  have hname : h.adapter.refreshName = h.adapter.venue.refreshName := by
    cases h.adapter <;> rfl
  rw [refresh, hname]

/-- So it is reconciled. -/
theorem reconcile_eq (h : Handle) (keys : VaultKeys) (option : UInt64) :
    h.reconcile keys option = .named keys h.adapter.venue.reconcileName
      (Bytes.ofNat 8 option.toNat) (h.reconcileAccounts keys) := by
  have hname : h.adapter.reconcileName = h.adapter.venue.reconcileName := by
    cases h.adapter <;> rfl
  rw [reconcile, hname]

/-- Whether two handles reach one venue, with one reserve and one holding. -/
structure Alike (h h' : Handle) : Prop where
  venue : h.adapter.venue = h'.adapter.venue
  reserve : h.reserve = h'.reserve
  holding : h.holding = h'.holding

theorem alike_of_refreshAccounts (hvenue : h.adapter.venue = h'.adapter.venue)
    (haccounts : h.refreshAccounts keys = h'.refreshAccounts keys') : h.Alike h' := by
  obtain ⟨adapter, reserve, holding⟩ := h
  obtain ⟨adapter', reserve', holding'⟩ := h'
  -- the venue tells in which place of the accounts the reserve is
  cases adapter <;> cases adapter' <;> try cases hvenue
  all_goals
    simp only [refreshAccounts, AccountMeta.read, AccountMeta.write, List.cons_append,
      List.cons.injEq, AccountMeta.mk.injEq, and_true] at haccounts
    exact ⟨rfl, by tauto, by tauto⟩

theorem alike_of_reconcileAccounts (hvenue : h.adapter.venue = h'.adapter.venue)
    (haccounts : h.reconcileAccounts keys = h'.reconcileAccounts keys') : h.Alike h' := by
  obtain ⟨adapter, reserve, holding⟩ := h
  obtain ⟨adapter', reserve', holding'⟩ := h'
  cases adapter <;> cases adapter' <;> try cases hvenue
  all_goals
    simp only [reconcileAccounts, AccountMeta.read, AccountMeta.write, List.cons_append,
      List.nil_append, List.cons.injEq, AccountMeta.mk.injEq, and_true] at haccounts
    exact ⟨rfl, by tauto, by tauto⟩

theorem alike_of_refresh (heq : h.refresh keys = h'.refresh keys') : h.Alike h' := by
  rw [refresh_eq, refresh_eq] at heq
  obtain ⟨hname, -, haccounts⟩ := Instruction.named_inj
    (Instruction.refreshName_mem h.adapter.venue) (Instruction.refreshName_mem h'.adapter.venue) heq
  exact alike_of_refreshAccounts (Venue.refreshName_inj hname) haccounts

theorem alike_of_reconcile {option option' : UInt64}
    (heq : h.reconcile keys option = h'.reconcile keys' option') : h.Alike h' := by
  rw [reconcile_eq, reconcile_eq] at heq
  obtain ⟨hname, -, haccounts⟩ := Instruction.named_inj
    (Instruction.reconcileName_mem h.adapter.venue)
    (Instruction.reconcileName_mem h'.adapter.venue) heq
  exact alike_of_reconcileAccounts (Venue.reconcileName_inj hname) haccounts

theorem refresh_ne_reconcile {option : UInt64} : h.refresh keys ≠ h'.reconcile keys' option := by
  intro heq
  rw [refresh_eq, reconcile_eq] at heq
  obtain ⟨hname, -, -⟩ := Instruction.named_inj
    (Instruction.refreshName_mem h.adapter.venue)
    (Instruction.reconcileName_mem h'.adapter.venue) heq
  exact Venue.refreshName_ne_reconcileName _ _ hname

end Handle

/-! ## Plain instructions -/

namespace Instruction

/-- An instruction that neither refreshes a venue nor reconciles one. -/
structure Plain (i : Instruction) : Prop where
  not_refresh : ∀ (h : Handle) (keys : VaultKeys), h.refresh keys ≠ i
  not_reconcile : ∀ (h : Handle) (keys : VaultKeys) (option : UInt64), h.reconcile keys option ≠ i

/-- An instruction of the program under any other name is plain. -/
theorem plain_named {keys : VaultKeys} {name : String} {arguments : Bytes}
    {accounts : List AccountMeta} (hname : name ∈ names)
    (hother : ∀ v ∈ Venue.all, v.refreshName ≠ name ∧ v.reconcileName ≠ name) :
    (named keys name arguments accounts).Plain := by
  constructor
  · intro h keys' heq
    rw [h.refresh_eq] at heq
    obtain ⟨hsame, -, -⟩ := named_inj (refreshName_mem h.adapter.venue) hname heq
    exact (hother _ h.adapter.venue.mem_all).1 hsame
  · intro h keys' option heq
    rw [h.reconcile_eq] at heq
    obtain ⟨hsame, -, -⟩ := named_inj (reconcileName_mem h.adapter.venue) hname heq
    exact (hother _ h.adapter.venue.mem_all).2 hsame

/-- So is one whose data are of another length, whatever program it is of. -/
theorem plain_of_length {i : Instruction} (hrefresh : i.data.length ≠ 8)
    (hreconcile : i.data.length ≠ 16) : i.Plain := by
  constructor
  · rintro h keys rfl
    exact hrefresh (length_data_named _ _ _ _)
  · rintro h keys option rfl
    exact hreconcile (by rw [Handle.reconcile, length_data_named, Bytes.length_ofNat])

theorem plain_createAccount (payer account : Key) (lamports : UInt64) (width : Nat) (owner : Key) :
    (createAccount payer account lamports width owner).Plain := by
  have hlength : (createAccount payer account lamports width owner).data.length = 52 := by
    simp [createAccount, owner.length_bytes]
  apply plain_of_length <;> omega

theorem plain_initializeHolding (account mint owner : Key) :
    (initializeHolding account mint owner).Plain := by
  have hlength : (initializeHolding account mint owner).data.length = 33 := by
    simp [initializeHolding, owner.length_bytes]
  apply plain_of_length <;> omega

end Instruction

end YieldVault
