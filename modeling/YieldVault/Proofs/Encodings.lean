-- The laws of encodings: the instructions of operations stand in the order of the
-- operations, and a refresh or a reconcile among them comes of an operation on a venue,
-- by the handle of that venue.
import YieldVault.Proofs.Instructions
import YieldVault.Proofs.Readiness

namespace YieldVault

namespace Encoder

variable {encoder : Encoder} {instructions part : List Instruction}

/-! ## Lists of operations -/

theorem subset_of_operations {ops : List Operation} {op : Operation}
    (h : encoder.operations ops = .ok instructions) (hop : op ∈ ops) :
    ∃ part, encoder.operation op = .ok part ∧ part ⊆ instructions := by
  obtain ⟨before, after, rfl⟩ := List.append_of_mem hop
  obtain ⟨first, rest, -, hrest, rfl⟩ := operations_append_iff.1 h
  obtain ⟨part, others, hpart, -, rfl⟩ := operations_cons_iff.1 hrest
  refine ⟨part, hpart, fun i hi => ?_⟩
  exact List.mem_append_right first (List.mem_append_left others hi)

/-- An instruction comes of an operation, behind those of the operations ahead of that. -/
theorem exists_operation_of_split {ops : List Operation} {earlier later : List Instruction}
    {i : Instruction} (h : encoder.operations ops = .ok (earlier ++ i :: later)) :
    ∃ before op after first part, ops = before ++ op :: after ∧
      encoder.operations before = .ok first ∧ first ⊆ earlier ∧
      encoder.operation op = .ok part ∧ i ∈ part := by
  induction ops generalizing earlier with
  | nil =>
    rw [operations, Except.ok.injEq] at h
    simp at h
  | cons op rest ih =>
    obtain ⟨part, others, hpart, hothers, hall⟩ := operations_cons_iff.1 h
    -- the first operation has the instruction, or it stands behind all that this one has
    have hwhere : (∃ extra, earlier = part ++ extra ∧ others = extra ++ i :: later) ∨ i ∈ part := by
      rcases List.append_eq_append_iff.1 hall.symm with hbehind | ⟨extra, rfl, hextra⟩
      · exact .inl hbehind
      · cases extra with
        | nil => exact .inl ⟨[], by simp, hextra.symm⟩
        | cons i' extra =>
          obtain ⟨rfl, -⟩ := List.cons.inj hextra
          exact .inr (by simp)
    rcases hwhere with ⟨extra, rfl, rfl⟩ | hi
    · obtain ⟨before, op', after, first, part', rfl, hfirst, hsubset, hpart', hi⟩ := ih hothers
      refine ⟨op :: before, op', after, part ++ first, part', rfl,
        operations_cons_iff.2 ⟨part, first, hpart, hfirst, rfl⟩, ?_, hpart', hi⟩
      exact List.append_subset.2 ⟨List.subset_append_left _ _,
        List.Subset.trans hsubset (List.subset_append_right _ _)⟩
    · exact ⟨[], op, rest, [], part, rfl, rfl, List.nil_subset _, hpart, hi⟩

/-! ## Refreshes and reconciles -/

/-- An instruction of an operation refreshes or reconciles the venue of that operation, by the
handle of the venue, or it is plain. -/
theorem mem_operation {op : Operation} {i : Instruction} (h : encoder.operation op = .ok part)
    (hi : i ∈ part) :
    (∃ v handle, op = .refresh v ∧ encoder.handle v = .ok handle ∧ i = handle.refresh encoder.keys) ∨
    (∃ step handle, op = .reconcile step ∧ encoder.handle step.venue = .ok handle ∧
      i = handle.reconcile encoder.keys step.option) ∨ i.Plain := by
  cases op with
  | refresh v =>
    obtain ⟨handle, hhandle, rfl⟩ := Except.map_eq_ok_iff.1 h
    exact .inl ⟨v, handle, rfl, hhandle, List.mem_singleton.1 hi⟩
  | reconcile step =>
    obtain ⟨handle, hhandle, rfl⟩ := Except.map_eq_ok_iff.1 h
    exact .inr (.inl ⟨step, handle, rfl, hhandle, List.mem_singleton.1 hi⟩)
  | consolidate =>
    cases h
    rw [List.mem_singleton.1 hi]
    exact .inr (.inr (Instruction.plain_named (by decide) (by decide)))
  | rebalance weights =>
    cases h
    rw [List.mem_singleton.1 hi]
    exact .inr (.inr (Instruction.plain_named (by decide) (by decide)))
  | deposit amount source shareAccount =>
    cases h
    rw [List.mem_singleton.1 hi]
    exact .inr (.inr (Instruction.plain_named (by decide) (by decide)))
  | withdraw shares shareAccount destination =>
    cases h
    rw [List.mem_singleton.1 hi]
    exact .inr (.inr (Instruction.plain_named (by decide) (by decide)))
  | createAssociated mint =>
    cases h
    rw [List.mem_singleton.1 hi]
    exact .inr (.inr (Instruction.plain_of_length (by simp [Instruction.createAssociated])
      (by simp [Instruction.createAssociated])))
  | wrap account lamports =>
    cases h
    rcases List.mem_cons.1 hi with rfl | hi
    · exact .inr (.inr (Instruction.plain_createAccount _ _ _ _ _))
    · rw [List.mem_singleton.1 hi]
      exact .inr (.inr (Instruction.plain_initializeHolding _ _ _))
  | unwrap account =>
    cases h
    rw [List.mem_singleton.1 hi]
    exact .inr (.inr (Instruction.plain_of_length (by simp [Instruction.closeHolding])
      (by simp [Instruction.closeHolding])))

theorem reconcile_of_mem_operation {op : Operation} {h : Handle} {keys : VaultKeys}
    {option : UInt64} (hop : encoder.operation op = .ok part)
    (hi : h.reconcile keys option ∈ part) :
    ∃ step handle, op = .reconcile step ∧ encoder.handle step.venue = .ok handle ∧
      h.Alike handle := by
  rcases mem_operation hop hi with ⟨v, handle, -, -, heq⟩ | ⟨step, handle, rfl, hhandle, heq⟩ | hplain
  · exact absurd heq.symm Handle.refresh_ne_reconcile
  · exact ⟨step, handle, rfl, hhandle, Handle.alike_of_reconcile heq⟩
  · exact absurd rfl (hplain.not_reconcile h keys option)

theorem refresh_of_mem_operation {op : Operation} {h : Handle} {keys : VaultKeys}
    (hop : encoder.operation op = .ok part) (hi : h.refresh keys ∈ part) :
    ∃ v handle, op = .refresh v ∧ encoder.handle v = .ok handle ∧ h.Alike handle := by
  rcases mem_operation hop hi with ⟨v, handle, rfl, hhandle, heq⟩ | ⟨step, handle, -, -, heq⟩ | hplain
  · exact ⟨v, handle, rfl, hhandle, Handle.alike_of_refresh heq⟩
  · exact absurd heq Handle.refresh_ne_reconcile
  · exact absurd rfl (hplain.not_refresh h keys)

/-! ## Batches -/

/-- In a batch that refreshes first, a reconcile stands behind the refresh of its venue, by the same
accounts of it. -/
theorem refresh_mem_of_reconcile {batch : Batch} {earlier later : List Instruction} {h : Handle}
    {keys : VaultKeys} {option : UInt64} (hfresh : batch.isRefreshedFirst)
    (hencoded : encoder.encode batch = .ok (earlier ++ h.reconcile keys option :: later)) :
    ∃ handle, h.Alike handle ∧ handle.refresh encoder.keys ∈ earlier := by
  obtain ⟨before, op, after, first, part, hops, hfirst, hsubset, hpart, hi⟩ :=
    exists_operation_of_split hencoded
  obtain ⟨step, handle, rfl, hhandle, halike⟩ := reconcile_of_mem_operation hpart hi
  rw [Batch.isRefreshedFirst, hops] at hfresh
  rcases Batch.refresh_mem_of_refreshedFirst hfresh with hnone | hbefore
  · cases hnone
  · obtain ⟨refreshed, hrefreshed, hamong⟩ := subset_of_operations hfirst hbefore
    rw [operation, hhandle] at hrefreshed
    cases hrefreshed
    exact ⟨handle, halike, hsubset (hamong List.mem_cons_self)⟩

/-- A venue that is refreshed or reconciled is one that the batch touches. -/
theorem exists_handle_of_mem {batch : Batch} {venues : List Venue} {h : Handle} {keys : VaultKeys}
    (hwithin : ∀ op ∈ batch.operations, op.Within venues)
    (hencoded : encoder.encode batch = .ok instructions)
    (hi : h.refresh keys ∈ instructions ∨ ∃ option, h.reconcile keys option ∈ instructions) :
    ∃ v ∈ venues, ∃ handle, encoder.handles.get? v = some handle ∧ h.Alike handle := by
  rcases hi with hi | ⟨option, hi⟩
  · obtain ⟨earlier, later, rfl⟩ := List.append_of_mem hi
    obtain ⟨before, op, after, -, part, hops, -, -, hpart, hi⟩ := exists_operation_of_split hencoded
    obtain ⟨v, handle, rfl, hhandle, halike⟩ := refresh_of_mem_operation hpart hi
    have hmem : Operation.refresh v ∈ batch.operations := by simp [hops]
    exact ⟨v, hwithin _ hmem, handle, handle_eq_ok_iff.1 hhandle, halike⟩
  · obtain ⟨earlier, later, rfl⟩ := List.append_of_mem hi
    obtain ⟨before, op, after, -, part, hops, -, -, hpart, hi⟩ := exists_operation_of_split hencoded
    obtain ⟨step, handle, rfl, hhandle, halike⟩ := reconcile_of_mem_operation hpart hi
    have hmem : Operation.reconcile step ∈ batch.operations := by simp [hops]
    exact ⟨step.venue, hwithin _ hmem, handle, handle_eq_ok_iff.1 hhandle, halike⟩

end Encoder

end YieldVault
