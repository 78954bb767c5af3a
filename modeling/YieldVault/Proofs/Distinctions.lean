-- The law of distinctions: two lists of operations that one encoder turns into the same
-- instructions are the same operations, in the same places, but for the way in which
-- weights of nothing are written.
import YieldVault.Proofs.Transactions

namespace YieldVault

/-! ## Numbers in bytes -/

namespace Bytes

theorem ofNat_inj {width n m : Nat} (hn : n < capacity width) (hm : m < capacity width)
    (h : ofNat width n = ofNat width m) : n = m := by
  rw [← toNat_ofNat width n hn, ← toNat_ofNat width m hm, h]

theorem ofNat_uint64_inj {a b : UInt64} (h : ofNat 8 a.toNat = ofNat 8 b.toNat) : a = b := by
  have ha : a.toNat < capacity 8 := a.toNat_lt
  have hb : b.toNat < capacity 8 := b.toNat_lt
  exact UInt64.toNat_inj.1 (ofNat_inj ha hb h)

theorem ofNat_uint16_inj {a b : UInt16} (h : ofNat 2 a.toNat = ofNat 2 b.toNat) : a = b := by
  have ha : a.toNat < capacity 2 := a.toNat_lt
  have hb : b.toNat < capacity 2 := b.toNat_lt
  exact UInt16.toNat_inj.1 (ofNat_inj ha hb h)

end Bytes

/-! ## Arguments and accounts -/

namespace Instruction

variable {keys : VaultKeys} {payer : Key}

theorem weightBytes_inj {weights weights' : Option Weights}
    (h : weightBytes weights = weightBytes weights') (v : Venue) :
    (weights.getD .none).bps v = (weights'.getD .none).bps v := by
  simp only [weightBytes_eq, Venue.all, List.flatMap_cons, List.flatMap_nil] at h
  obtain ⟨hsolend, h⟩ := List.append_inj h (by simp)
  obtain ⟨hport, h⟩ := List.append_inj h (by simp)
  obtain ⟨hjet, -⟩ := List.append_inj h (by simp)
  cases v with
  | solend => exact Bytes.ofNat_uint16_inj hsolend
  | port => exact Bytes.ofNat_uint16_inj hport
  | jet => exact Bytes.ofNat_uint16_inj hjet

theorem bps_eq_of_rebalance {reserves : PerVenue Key} {weights weights' : Option Weights}
    (h : rebalance keys reserves weights = rebalance keys reserves weights') (v : Venue) :
    (weights.getD .none).bps v = (weights'.getD .none).bps v := by
  obtain ⟨-, harguments, -⟩ := named_inj (by decide) (by decide) h
  exact weightBytes_inj harguments v

theorem option_eq_of_reconcile {handle handle' : Handle} {option option' : UInt64}
    (h : handle.reconcile keys option = handle'.reconcile keys option') : option = option' := by
  rw [handle.reconcile_eq, handle'.reconcile_eq] at h
  obtain ⟨-, hoption, -⟩ := named_inj (reconcileName_mem handle.adapter.venue)
    (reconcileName_mem handle'.adapter.venue) h
  exact Bytes.ofNat_uint64_inj hoption

theorem deposit_inj {source source' shareAccount shareAccount' : Key} {amount amount' : UInt64}
    (h : deposit keys payer source shareAccount amount =
      deposit keys payer source' shareAccount' amount') :
    amount = amount' ∧ source = source' ∧ shareAccount = shareAccount' := by
  obtain ⟨-, hamount, haccounts⟩ := named_inj (by decide) (by decide) h
  simp only [AccountMeta.write, List.cons.injEq, AccountMeta.mk.injEq, and_true, true_and]
    at haccounts
  exact ⟨Bytes.ofNat_uint64_inj hamount, haccounts⟩

theorem withdraw_inj {shareAccount shareAccount' destination destination' : Key}
    {shares shares' : UInt64}
    (h : withdraw keys payer shareAccount destination shares =
      withdraw keys payer shareAccount' destination' shares') :
    shares = shares' ∧ shareAccount = shareAccount' ∧ destination = destination' := by
  obtain ⟨-, hshares, haccounts⟩ := named_inj (by decide) (by decide) h
  simp only [AccountMeta.write, List.cons.injEq, AccountMeta.mk.injEq, and_true, true_and]
    at haccounts
  exact ⟨Bytes.ofNat_uint64_inj hshares, haccounts⟩

theorem createAssociated_inj {mint mint' : Key}
    (h : createAssociated payer mint = createAssociated payer mint') : mint = mint' := by
  simp only [createAssociated, AccountMeta.read, Instruction.mk.injEq, List.cons.injEq,
    AccountMeta.mk.injEq, and_true, true_and] at h
  exact h.2

theorem createAccount_inj {account account' owner : Key} {lamports lamports' : UInt64} {width : Nat}
    (h : createAccount payer account lamports width owner =
      createAccount payer account' lamports' width owner) :
    account = account' ∧ lamports = lamports' := by
  simp only [createAccount, AccountMeta.signWrite, Instruction.mk.injEq, List.cons.injEq,
    AccountMeta.mk.injEq, List.append_assoc, and_true, true_and] at h
  obtain ⟨haccount, hdata⟩ := h
  obtain ⟨-, hdata⟩ := List.append_inj hdata (by simp)
  obtain ⟨hlamports, -⟩ := List.append_inj hdata (by simp)
  exact ⟨haccount, Bytes.ofNat_uint64_inj hlamports⟩

theorem closeHolding_inj {account account' destination owner : Key}
    (h : closeHolding account destination owner = closeHolding account' destination owner) :
    account = account' := by
  simp only [closeHolding, AccountMeta.write, Instruction.mk.injEq, List.cons.injEq,
    AccountMeta.mk.injEq, and_true, true_and] at h
  exact h

end Instruction

/-! ## What the vault's program is called for -/

namespace Operation

/-- What an operation calls the vault's program for: one case for each name of its instructions. -/
inductive Label
  | refresh (venue : Venue)
  | reconcile (venue : Venue)
  | consolidate
  | rebalance
  | deposit
  | withdraw
  deriving DecidableEq

namespace Label

def all : List Label :=
  Venue.all.map refresh ++ Venue.all.map reconcile ++ [consolidate, rebalance, deposit, withdraw]

/-- The name of the instruction. -/
def name : Label → String
  | refresh v => v.refreshName
  | reconcile v => v.reconcileName
  | consolidate => "consolidate_refresh"
  | rebalance => "rebalance"
  | deposit => "deposit"
  | withdraw => "withdraw"

theorem mem_all (label : Label) : label ∈ all := by
  cases label with
  | refresh v => cases v <;> decide
  | reconcile v => cases v <;> decide
  | _ => decide

theorem name_mem (label : Label) : label.name ∈ Instruction.names := by
  have h : ∀ label ∈ all, label.name ∈ Instruction.names := by decide
  exact h label label.mem_all

theorem name_inj {label label' : Label} (h : label.name = label'.name) : label = label' := by
  have hall : ∀ label ∈ all, ∀ label' ∈ all, label.name = label'.name → label = label' := by decide
  exact hall label label.mem_all label' label'.mem_all h

end Label

/-- The label of an operation; those on the other programs have none. -/
def label? : Operation → Option Label
  | refresh v => some (.refresh v)
  | consolidate => some .consolidate
  | rebalance _ => some .rebalance
  | reconcile step => some (.reconcile step.venue)
  | deposit .. => some .deposit
  | withdraw .. => some .withdraw
  | _ => none

/-- Whether two operations do the same: they are equal, or they commit the same weights, where no
weights at all weight no venue. -/
inductive Same : Operation → Operation → Prop
  | refl (op : Operation) : Same op op
  | weighted {weights weights' : Option Weights} :
      (∀ v, (weights.getD .none).bps v = (weights'.getD .none).bps v) →
      Same (.rebalance weights) (.rebalance weights')

end Operation

open Operation (Label Same)

namespace Encoder

variable {encoder : Encoder} {op op' : Operation} {first : Instruction}
  {more more' : List Instruction}

/-! ## First instructions -/

/-- Whether each handle reaches the venue that it is kept for. -/
def Owned (encoder : Encoder) : Prop :=
  ∀ v handle, encoder.handles.get? v = some handle → handle.adapter.venue = v

theorem exists_named_of_label? (howned : encoder.Owned) {label : Label}
    (hlabel : op.label? = some label) (h : encoder.operation op = .ok (first :: more)) :
    ∃ arguments accounts, first = .named encoder.keys label.name arguments accounts := by
  cases op with
  | refresh v =>
    obtain ⟨handle, hhandle, hfirst⟩ := Except.map_eq_ok_iff.1 h
    cases hfirst
    cases hlabel
    have hvenue := howned v handle (handle_eq_ok_iff.1 hhandle)
    subst hvenue
    exact ⟨_, _, handle.refresh_eq _⟩
  | reconcile step =>
    obtain ⟨handle, hhandle, hfirst⟩ := Except.map_eq_ok_iff.1 h
    cases hfirst
    cases hlabel
    have hvenue := howned step.venue handle (handle_eq_ok_iff.1 hhandle)
    rw [← hvenue]
    exact ⟨_, _, handle.reconcile_eq _ _⟩
  | createAssociated mint => cases hlabel
  | wrap account lamports => cases hlabel
  | unwrap account => cases hlabel
  | _ =>
    cases h
    cases hlabel
    exact ⟨_, _, rfl⟩

theorem head?_of_label?_eq_none (hlabel : op.label? = none)
    (h : encoder.operation op = .ok (first :: more)) :
    ∃ b ∈ Instruction.foreignHeads, first.data.head? = some b := by
  cases op with
  | createAssociated mint => cases h; exact ⟨1, by decide, rfl⟩
  | wrap account lamports => cases h; exact ⟨0, by decide, rfl⟩
  | unwrap account => cases h; exact ⟨9, by decide, rfl⟩
  | _ => cases hlabel

/-- The first instruction tells whether the vault's program is called, and what for. -/
theorem label?_eq_of_first (howned : encoder.Owned)
    (h : encoder.operation op = .ok (first :: more))
    (h' : encoder.operation op' = .ok (first :: more')) : op.label? = op'.label? := by
  have hforeign : ∀ label : Label, ∀ arguments accounts, ∀ b ∈ Instruction.foreignHeads,
      (Instruction.named encoder.keys label.name arguments accounts).data.head? ≠ some b := by
    intro label arguments accounts b hb hhead
    apply Instruction.head?_instructionTag_ne label.name_mem hb
    have hsome : instructionTag label.name ≠ [] := by
      rw [← List.length_pos_iff, instructionTag, length_nameTag]
      decide
    rwa [Instruction.named, List.head?_append_of_ne_nil _ hsome] at hhead
  cases hlabel : op.label? with
  | some label =>
    obtain ⟨arguments, accounts, hnamed⟩ := exists_named_of_label? howned hlabel h
    cases hlabel' : op'.label? with
    | some label' =>
      obtain ⟨arguments', accounts', hnamed'⟩ := exists_named_of_label? howned hlabel' h'
      obtain ⟨hname, -, -⟩ := Instruction.named_inj label.name_mem label'.name_mem
        (hnamed.symm.trans hnamed')
      rw [Label.name_inj hname]
    | none =>
      obtain ⟨b, hb, hhead⟩ := head?_of_label?_eq_none hlabel' h'
      rw [hnamed] at hhead
      exact absurd hhead (hforeign label _ _ b hb)
  | none =>
    obtain ⟨b, hb, hhead⟩ := head?_of_label?_eq_none hlabel h
    cases hlabel' : op'.label? with
    | some label' =>
      obtain ⟨arguments', accounts', hnamed'⟩ := exists_named_of_label? howned hlabel' h'
      rw [hnamed'] at hhead
      exact absurd hhead (hforeign label' _ _ b hb)
    | none => rfl

/-! ## Whole operations -/

/-- The first instruction tells what an operation does: the label tells its kind and its venue, and
the arguments and the accounts tell the rest. -/
theorem same_of_first (howned : encoder.Owned) (h : encoder.operation op = .ok (first :: more))
    (h' : encoder.operation op' = .ok (first :: more')) : op.Same op' := by
  have hlabel := label?_eq_of_first howned h h'
  cases op with
  | refresh v =>
    cases op' <;> cases hlabel
    exact .refl _
  | consolidate =>
    cases op' <;> cases hlabel
    exact .refl _
  | rebalance weights =>
    cases op' <;> cases hlabel
    cases h
    obtain ⟨hfirst, -⟩ := List.cons.inj (Except.ok.inj h')
    exact .weighted (Instruction.bps_eq_of_rebalance hfirst.symm)
  | reconcile step =>
    obtain ⟨v, option⟩ := step
    obtain ⟨handle, -, hfirst⟩ := Except.map_eq_ok_iff.1 h
    cases hfirst
    cases op' with
    | reconcile step' =>
      obtain ⟨v', option'⟩ := step'
      obtain ⟨handle', -, hfirst'⟩ := Except.map_eq_ok_iff.1 h'
      obtain ⟨hsame, -⟩ := List.cons.inj hfirst'
      cases hlabel
      cases Instruction.option_eq_of_reconcile hsame
      exact .refl _
    | _ => cases hlabel
  | deposit amount source shareAccount =>
    cases op' <;> cases hlabel
    cases h
    obtain ⟨hfirst, -⟩ := List.cons.inj (Except.ok.inj h')
    obtain ⟨rfl, rfl, rfl⟩ := Instruction.deposit_inj hfirst
    exact .refl _
  | withdraw shares shareAccount destination =>
    cases op' <;> cases hlabel
    cases h
    obtain ⟨hfirst, -⟩ := List.cons.inj (Except.ok.inj h')
    obtain ⟨rfl, rfl, rfl⟩ := Instruction.withdraw_inj hfirst
    exact .refl _
  | createAssociated mint =>
    cases h
    cases op' with
    | createAssociated mint' =>
      obtain ⟨hfirst, -⟩ := List.cons.inj (Except.ok.inj h')
      obtain rfl := Instruction.createAssociated_inj hfirst
      exact .refl _
    | wrap account lamports => cases h'
    | unwrap account => cases h'
    | _ => cases hlabel
  | wrap account lamports =>
    cases h
    cases op' with
    | wrap account' lamports' =>
      obtain ⟨hfirst, -⟩ := List.cons.inj (Except.ok.inj h')
      obtain ⟨rfl, rfl⟩ := Instruction.createAccount_inj hfirst
      exact .refl _
    | createAssociated mint => cases h'
    | unwrap account => cases h'
    | _ => cases hlabel
  | unwrap account =>
    cases h
    cases op' with
    | unwrap account' =>
      obtain ⟨hfirst, -⟩ := List.cons.inj (Except.ok.inj h')
      obtain rfl := Instruction.closeHolding_inj hfirst
      exact .refl _
    | createAssociated mint => cases h'
    | wrap account lamports => cases h'
    | _ => cases hlabel

theorem operation_eq_of_same (h : op.Same op') : encoder.operation op = encoder.operation op' := by
  cases h with
  | refl => rfl
  | @weighted weights weights' hbps =>
    have hbytes : Instruction.weightBytes weights = Instruction.weightBytes weights' := by
      simp only [Instruction.weightBytes_eq, hbps]
    rw [operation, operation, Instruction.rebalance, hbytes]
    rfl

/-- Every operation has an instruction to begin with. -/
theorem exists_cons_of_operation {part : List Instruction} (h : encoder.operation op = .ok part) :
    ∃ first more, part = first :: more := by
  apply List.exists_cons_of_length_pos
  rw [length_operation h]
  unfold Operation.operands
  split <;> decide

/-- What the first of two operations comes to is told from all that follows. -/
theorem same_of_append (howned : encoder.Owned) {part part' rest rest' : List Instruction}
    (h : encoder.operation op = .ok part) (h' : encoder.operation op' = .ok part')
    (heq : part ++ rest = part' ++ rest') : op.Same op' ∧ rest = rest' := by
  obtain ⟨first, more, rfl⟩ := exists_cons_of_operation h
  obtain ⟨first', more', rfl⟩ := exists_cons_of_operation h'
  obtain ⟨rfl, -⟩ := List.cons.inj heq
  have hsame := same_of_first howned h h'
  rw [operation_eq_of_same hsame, h'] at h
  cases h
  exact ⟨hsame, List.append_cancel_left heq⟩

/-! ## Lists of operations -/

theorem same_of_operations (howned : encoder.Owned) {ops ops' : List Operation}
    {instructions : List Instruction} (h : encoder.operations ops = .ok instructions)
    (h' : encoder.operations ops' = .ok instructions) : List.Forall₂ Same ops ops' := by
  induction ops generalizing ops' instructions with
  | nil =>
    cases h
    cases ops' with
    | nil => exact .nil
    | cons op' rest' =>
      obtain ⟨part', others', hpart', -, heq⟩ := operations_cons_iff.1 h'
      obtain ⟨first', more', rfl⟩ := exists_cons_of_operation hpart'
      cases heq
  | cons op rest ih =>
    obtain ⟨part, others, hpart, hothers, rfl⟩ := operations_cons_iff.1 h
    cases ops' with
    | nil =>
      obtain ⟨first, more, rfl⟩ := exists_cons_of_operation hpart
      cases h'
    | cons op' rest' =>
      obtain ⟨part', others', hpart', hothers', heq⟩ := operations_cons_iff.1 h'
      obtain ⟨hsame, rfl⟩ := same_of_append howned hpart hpart' heq
      exact .cons hsame (ih hothers hothers')

theorem operations_eq_of_same {ops ops' : List Operation} (h : List.Forall₂ Same ops ops') :
    encoder.operations ops = encoder.operations ops' := by
  induction h with
  | nil => rfl
  | cons hop _ ih => rw [operations, operations, operation_eq_of_same hop, ih]

end Encoder

/-- However a client came to be as it is since it was opened, its handles are kept for the venues
that they reach. -/
theorem Client.owned_encoder {deployment : Deployment} {payer program vault : Key} {ceiling : Nat}
    {opening : List Exchange} {opened client : Client}
    (hopened : Call.Runs (connect payer program vault deployment ceiling) opening (.ok opened))
    (hleads : opened.Leads client) : client.encoder.Owned := by
  obtain ⟨first, handles, -, hwired, rfl⟩ := runs_connect_iff.1 hopened
  obtain ⟨record, rfl⟩ := hleads.eq
  intro v handle hv
  exact Deployment.venue_of_wire hwired hv

/-! ## The law -/

/-- Where each handle reaches the venue that it is kept for, two lists of operations have the same
instructions only if they do the same, one operation after the other, and then they have. -/
theorem instructions_tell_the_operations {encoder : Encoder} {ops ops' : List Operation}
    {instructions instructions' : List Instruction} (howned : encoder.Owned)
    (h : encoder.operations ops = .ok instructions)
    (h' : encoder.operations ops' = .ok instructions') :
    instructions = instructions' ↔ List.Forall₂ Same ops ops' := by
  constructor
  · rintro rfl
    exact Encoder.same_of_operations howned h h'
  · intro hsame
    rw [Encoder.operations_eq_of_same hsame, h'] at h
    cases h
    rfl

namespace OneVenue

/-- Weights that give a venue nothing. -/
def unweighted : Weights where
  table := ⟨none, some 0, none⟩
  le_whole := by
    intro v bps hv
    cases v <;> cases hv
    decide

/-- An operation of two instructions stands ahead of a commit without weights, and of one with
weights of nothing. -/
theorem weights_of_nothing_are_told_from_no_others :
    client.encoder.Owned ∧
    ∃ instructions instructions',
      client.encoder.operations [.refresh .solend, .wrap default 5, .rebalance none] =
        .ok instructions ∧
      client.encoder.operations [.refresh .solend, .wrap default 5, .rebalance (some unweighted)] =
        .ok instructions' ∧
      (instructions = instructions' ↔
        List.Forall₂ Same [.refresh .solend, .wrap default 5, .rebalance none]
          [.refresh .solend, .wrap default 5, .rebalance (some unweighted)]) := by
  have howned : client.encoder.Owned := Client.owned_encoder runs_connect .here
  exact ⟨howned, _, _, rfl, rfl, instructions_tell_the_operations howned rfl rfl⟩

end OneVenue

end YieldVault
