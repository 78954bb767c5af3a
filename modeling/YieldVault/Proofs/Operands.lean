-- The law of operands: a batch is encoded just where every venue that it refreshes or
-- reconciles has a handle, and otherwise fails for the first that has none. It comes to
-- as many instructions as it counts, and where two batches are joined, to those of the
-- one and then those of the other.
import YieldVault.Batch.Encoder
import YieldVault.Proofs.Outcomes

namespace YieldVault

/-- The venue that an operation refreshes or reconciles. -/
def Operation.venue? : Operation → Option Venue
  | .refresh venue => some venue
  | .reconcile step => some step.venue
  | _ => none

namespace Encoder

/-- The venue of an operation, where there is no handle for it. -/
def missing? (encoder : Encoder) (op : Operation) : Option Venue :=
  op.venue?.filter fun v => !encoder.handles.contains v

variable {encoder : Encoder} {instructions part : List Instruction}

/-! ## One operation -/

theorem handle_eq_ok_iff {v : Venue} {handle : Handle} :
    encoder.handle v = .ok handle ↔ encoder.handles.get? v = some handle := by
  unfold Encoder.handle
  cases encoder.handles.get? v <;> simp

/-- What is done about a venue is made from the venue's handle. -/
theorem operation_of_venue? (encoder : Encoder) {op : Operation} {v : Venue}
    (hop : op.venue? = some v) :
    ∃ make : Handle → List Instruction, encoder.operation op = (encoder.handle v).map make := by
  cases op with
  | refresh w =>
    cases hop
    exact ⟨_, rfl⟩
  | reconcile step =>
    cases hop
    exact ⟨_, rfl⟩
  | _ => cases hop

/-- What is done about no venue is made from nothing that can be missing. -/
theorem exists_operation_of_venue?_eq_none {op : Operation} (hop : op.venue? = none) :
    ∃ part, encoder.operation op = .ok part := by
  cases op with
  | refresh w => cases hop
  | reconcile step => cases hop
  | _ => exact ⟨_, rfl⟩

theorem missing?_eq_none_iff {op : Operation} :
    encoder.missing? op = none ↔ ∀ v, op.venue? = some v → encoder.handles.contains v := by
  simp [missing?, Option.filter_eq_none_iff]

/-- An operation has instructions, or else it is missing the handle of its venue. -/
theorem operation_verdict (encoder : Encoder) (op : Operation) :
    (encoder.missing? op = none ∧ ∃ part, encoder.operation op = .ok part) ∨
      ∃ v, encoder.missing? op = some v ∧ encoder.operation op = .error (.venueDisabled v) := by
  cases hop : op.venue? with
  | none => exact .inl ⟨by rw [missing?, hop]; rfl, exists_operation_of_venue?_eq_none hop⟩
  | some v =>
    obtain ⟨make, hmake⟩ := encoder.operation_of_venue? hop
    rw [missing?, hop, hmake, handle]
    cases hhandle : encoder.handles.get? v with
    | some handle => exact .inl ⟨by simp [VenueMap.contains, hhandle], make handle, rfl⟩
    | none => exact .inr ⟨v, by simp [VenueMap.contains, hhandle], rfl⟩

theorem length_operation {op : Operation} (h : encoder.operation op = .ok part) :
    part.length = op.operands := by
  cases op with
  | refresh v =>
    obtain ⟨handle, -, rfl⟩ := Except.map_eq_ok_iff.1 h
    rfl
  | reconcile step =>
    obtain ⟨handle, -, rfl⟩ := Except.map_eq_ok_iff.1 h
    rfl
  | _ =>
    cases h
    rfl

/-! ## Lists of operations -/

theorem operations_cons_iff {op : Operation} {rest : List Operation} :
    encoder.operations (op :: rest) = .ok instructions ↔
      ∃ part others, encoder.operation op = .ok part ∧ encoder.operations rest = .ok others ∧
        instructions = part ++ others := by
  rw [operations]
  exact Except.bind_append_eq_ok_iff

/-- Operations behind others have their instructions behind those of the others; where the others
fail, all fail for the same. -/
theorem operations_append (encoder : Encoder) (before after : List Operation) :
    encoder.operations (before ++ after) = (do
      let first ← encoder.operations before
      let rest ← encoder.operations after
      pure (first ++ rest)) := by
  induction before with
  | nil => exact (bind_pure _).symm
  | cons op before ih =>
    simp only [List.cons_append, operations, ih, bind_assoc, pure_bind, List.append_assoc]

theorem operations_append_iff {before after : List Operation} :
    encoder.operations (before ++ after) = .ok instructions ↔
      ∃ first rest, encoder.operations before = .ok first ∧ encoder.operations after = .ok rest ∧
        instructions = first ++ rest := by
  rw [operations_append]
  exact Except.bind_append_eq_ok_iff

/-- Operations have instructions, or else the first of them that is missing a handle fails. -/
theorem operations_verdict (encoder : Encoder) (ops : List Operation) :
    (ops.findSome? encoder.missing? = none ∧
        ∃ instructions, encoder.operations ops = .ok instructions) ∨
      ∃ v, ops.findSome? encoder.missing? = some v ∧
        encoder.operations ops = .error (.venueDisabled v) := by
  induction ops with
  | nil => exact .inl ⟨rfl, [], rfl⟩
  | cons op rest ih =>
    rw [List.findSome?_cons]
    rcases encoder.operation_verdict op with ⟨hnone, part, hpart⟩ | ⟨v, hv, hfailed⟩
    · rw [hnone]
      rcases ih with ⟨hrest, others, hothers⟩ | ⟨v, hv, hfailed⟩
      · exact .inl ⟨hrest, part ++ others,
          operations_cons_iff.2 ⟨part, others, hpart, hothers, rfl⟩⟩
      · exact .inr ⟨v, hv, by rw [operations, hpart, hfailed]; rfl⟩
    · exact .inr ⟨v, by rw [hv], by rw [operations, hfailed]; rfl⟩

theorem exists_operations_iff {ops : List Operation} :
    (∃ instructions, encoder.operations ops = .ok instructions) ↔
      ∀ op ∈ ops, ∀ v, op.venue? = some v → encoder.handles.contains v := by
  simp only [← missing?_eq_none_iff, ← List.findSome?_eq_none_iff]
  rcases encoder.operations_verdict ops with ⟨hnone, hencoded⟩ | ⟨v, hv, hfailed⟩
  · exact ⟨fun _ => hnone, fun _ => hencoded⟩
  · simp [hv, hfailed]

theorem operations_eq_error_iff {ops : List Operation} {e : Error} :
    encoder.operations ops = .error e ↔
      ∃ v, ops.findSome? encoder.missing? = some v ∧ e = .venueDisabled v := by
  rcases encoder.operations_verdict ops with ⟨hnone, instructions, hencoded⟩ | ⟨v, hv, hfailed⟩
  · simp [hnone, hencoded]
  · simp [hv, hfailed, eq_comm]

theorem length_operations {ops : List Operation} (h : encoder.operations ops = .ok instructions) :
    instructions.length = Operation.total ops := by
  induction ops generalizing instructions with
  | nil =>
    cases h
    rfl
  | cons op rest ih =>
    obtain ⟨part, others, hpart, hothers, rfl⟩ := operations_cons_iff.1 h
    rw [List.length_append, length_operation hpart, ih hothers, Operation.total]

end Encoder

/-! ## The law -/

/-- A batch has instructions just where every venue that it refreshes or reconciles has a handle;
where one has none, the first of them, in the order of the operations, is what it fails for. It has
as many instructions as it counts operands. And two batches made into one have the instructions of
the one and then those of the other, whatever either is for and whoever signs it. -/
theorem a_batch_has_the_instructions_it_counts (encoder : Encoder) (batch : Batch) :
    ((∃ instructions, encoder.encode batch = .ok instructions) ↔
      ∀ op ∈ batch.operations, ∀ v, op.venue? = some v → encoder.handles.contains v) ∧
    (∀ e, encoder.encode batch = .error e ↔
      ∃ v, batch.operations.findSome? encoder.missing? = some v ∧ e = .venueDisabled v) ∧
    (∀ instructions, encoder.encode batch = .ok instructions →
      instructions.length = batch.operands) ∧
    ∀ other : Batch,
      encoder.encode { batch with operations := batch.operations ++ other.operations } = (do
        let first ← encoder.encode batch
        let rest ← encoder.encode other
        pure (first ++ rest)) := by
  refine ⟨Encoder.exists_operations_iff, fun e => Encoder.operations_eq_error_iff,
    fun instructions hencoded => ?_, fun other => ?_⟩
  · rw [Batch.operands]
    exact Encoder.length_operations hencoded
  · exact encoder.operations_append batch.operations other.operations

/-- Without handles the first venue in the order of the operations is told, not the first in the
order of the venues. -/
example (keys : VaultKeys) (payer : Key) :
    (⟨keys, VenueMap.empty, default, payer⟩ : Encoder).encode
      ⟨.reconcile, [.wrap default 5, .refresh .port, .reconcile ⟨.solend, 0⟩], []⟩ =
        .error (.venueDisabled .port) := rfl

end YieldVault
