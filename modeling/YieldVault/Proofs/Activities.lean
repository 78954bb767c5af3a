-- The laws of activities: an instruction tells by its tag what it does that a vault may
-- be halted for, and it does what the operation does that it was built from.
import YieldVault.Proofs.Encodings

namespace YieldVault

/-- What an operation does that a vault may be halted for. -/
def Operation.activity : Operation → Option Activity
  | .refresh _ => some .refreshes
  | .consolidate => some .refreshes
  | .reconcile _ => some .reconciles
  | .deposit .. => some .transfers
  | .withdraw .. => some .transfers
  | _ => none

/-- The names of the instructions that a halt for an activity is about. -/
def Activity.names : Activity → List String
  | .refreshes => Venue.all.map Venue.refreshName ++ ["consolidate_refresh"]
  | .reconciles => Venue.all.map Venue.reconcileName
  | .transfers => ["deposit", "withdraw"]

namespace Instruction

/-- Whether an instruction opens with a tag of an activity, whichever program it is for. -/
def does (activity : Activity) (i : Instruction) : Bool :=
  activity.names.any fun name => i.data.take 8 == instructionTag name

theorem names_of_activity : ∀ activity : Activity, ∀ name ∈ activity.names, name ∈ names := by
  intro activity
  cases activity <;> decide

/-- An instruction of the vault's program does what it is named for. -/
theorem does_named {keys : VaultKeys} {name : String} {arguments : Bytes}
    {accounts : List AccountMeta} (hname : name ∈ names) (activity : Activity) :
    (named keys name arguments accounts).does activity = decide (name ∈ activity.names) := by
  rw [Bool.eq_iff_iff, does, List.any_eq_true, decide_eq_true_eq]
  simp only [beq_iff_eq]
  constructor
  · rintro ⟨other, hother, htag⟩
    have hknown := names_of_activity activity other hother
    rwa [(take_data_named_iff hname hknown).1 htag]
  · intro hmem
    exact ⟨name, hmem, (take_data_named_iff hname hname).2 rfl⟩

/-- Instructions of the other programs do nothing that a vault may be halted for. -/
theorem does_of_head {i : Instruction} {b : UInt8} (hhead : i.data.head? = some b)
    (hb : b ∈ foreignHeads) (activity : Activity) : i.does activity = false := by
  unfold does
  rw [List.any_eq_false]
  intro name hname
  rw [beq_iff_eq]
  exact take_data_ne_of_head hhead hb (names_of_activity activity name hname)

end Instruction

namespace Encoder

variable {encoder : Encoder} {instructions part : List Instruction}

/-- An instruction does what the operation does that it was built from. -/
theorem does_of_mem_operation {op : Operation} {i : Instruction}
    (h : encoder.operation op = .ok part) (hi : i ∈ part) (activity : Activity) :
    i.does activity = decide (op.activity = some activity) := by
  have hrefresh : ∀ v ∈ Venue.all, decide (v.refreshName ∈ activity.names) =
      decide (some Activity.refreshes = some activity) := by
    cases activity <;> decide
  have hreconcile : ∀ v ∈ Venue.all, decide (v.reconcileName ∈ activity.names) =
      decide (some Activity.reconciles = some activity) := by
    cases activity <;> decide
  cases op with
  | refresh v =>
    obtain ⟨handle, -, rfl⟩ := Except.map_eq_ok_iff.1 h
    rw [List.mem_singleton.1 hi, handle.refresh_eq]
    have hname := Instruction.refreshName_mem handle.adapter.venue
    exact (Instruction.does_named hname activity).trans (hrefresh _ (Venue.mem_all _))
  | reconcile step =>
    obtain ⟨handle, -, rfl⟩ := Except.map_eq_ok_iff.1 h
    rw [List.mem_singleton.1 hi, handle.reconcile_eq]
    have hname := Instruction.reconcileName_mem handle.adapter.venue
    exact (Instruction.does_named hname activity).trans (hreconcile _ (Venue.mem_all _))
  | consolidate =>
    cases h
    rw [List.mem_singleton.1 hi]
    exact (Instruction.does_named (by decide) activity).trans (by cases activity <;> rfl)
  | rebalance weights =>
    cases h
    rw [List.mem_singleton.1 hi]
    exact (Instruction.does_named (by decide) activity).trans (by cases activity <;> rfl)
  | deposit amount source shareAccount =>
    cases h
    rw [List.mem_singleton.1 hi]
    exact (Instruction.does_named (by decide) activity).trans (by cases activity <;> rfl)
  | withdraw shares shareAccount destination =>
    cases h
    rw [List.mem_singleton.1 hi]
    exact (Instruction.does_named (by decide) activity).trans (by cases activity <;> rfl)
  | createAssociated mint =>
    cases h
    rw [List.mem_singleton.1 hi]
    exact Instruction.does_of_head rfl (by decide) activity
  | wrap account lamports =>
    cases h
    rcases List.mem_cons.1 hi with rfl | hi
    · exact Instruction.does_of_head rfl (by decide) activity
    · rw [List.mem_singleton.1 hi]
      exact Instruction.does_of_head rfl (by decide) activity
  | unwrap account =>
    cases h
    rw [List.mem_singleton.1 hi]
    exact Instruction.does_of_head rfl (by decide) activity

/-- What instructions do is done by one of their operations. -/
theorem exists_activity_of_mem {ops : List Operation} {i : Instruction} {activity : Activity}
    (h : encoder.operations ops = .ok instructions) (hi : i ∈ instructions)
    (hdoes : i.does activity) : ∃ op ∈ ops, op.activity = some activity := by
  obtain ⟨earlier, later, rfl⟩ := List.append_of_mem hi
  obtain ⟨before, op, after, -, part, hops, -, -, hpart, hi⟩ := exists_operation_of_split h
  rw [does_of_mem_operation hpart hi, decide_eq_true_eq] at hdoes
  exact ⟨op, by simp [hops], hdoes⟩

end Encoder

end YieldVault
