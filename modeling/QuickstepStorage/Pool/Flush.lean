import QuickstepStorage.Pool.Lifecycle

/-! # Runs from construction, and the final flush

A run is a list of actions, each admissible in the system the actions before it leave. Along a
run from construction the system holds exactly the block ids the run introduced (those passed
to `addBlockToPool` and those the storage manager assigned to new blocks), each once. When the
operator is finalized with every block returned, `getPartiallyFilledBlocks` empties the pools,
and the caller's `partial_blocks`, the unloaded ids and the sealed ids then account for every
one of those blocks, once.
-/

namespace QuickstepStorage.PoolSystem

open PartitionAwareInsertDestination

/-- An admissible run moves block ids between places and adds the ones it introduces. -/
theorem blocks_runActions_perm {s : PoolSystem} (inv : s.Invariant) {actions : List PoolAction}
    (admissible : AdmissibleRun s actions) :
    (s.runActions actions).blocks.Perm (s.introducedBy actions ++ s.blocks) := by
  induction actions generalizing s with
  | nil => exact List.Perm.refl _
  | cons action actions ih =>
    have rest := ih (inv.step admissible.1) admissible.2
    have first := blocks_step_perm inv admissible.1
    rw [runActions_cons, introducedBy, List.append_assoc]
    exact rest.trans ((first.append_left _).trans (List.perm_append_comm_assoc _ _ _))

private theorem blocks_initial (base : InsertDestination) (numPartitions : Nat) :
    (initial base numPartitions).blocks = [] := by
  simp [blocks, handles, initial]

/-- Along every admissible run from construction the system holds exactly the block ids the
run introduced, and the run never introduces an id twice. -/
theorem blocks_perm_introducedBy (base : InsertDestination) (numPartitions : Nat)
    (actions : List PoolAction) (admissible : AdmissibleRun (initial base numPartitions) actions) :
    ((initial base numPartitions).runActions actions).blocks.Perm
        ((initial base numPartitions).introducedBy actions) ∧
      ((initial base numPartitions).introducedBy actions).Nodup := by
  have inv := Invariant.initial base numPartitions
  have moved := blocks_runActions_perm inv admissible
  rw [blocks_initial, List.append_nil] at moved
  exact ⟨moved, moved.nodup_iff.mp (inv.runActions admissible).unique⟩

theorem blocks_perm_introducedBy_checkout :
    let actions : List PoolAction :=
      [.pool (.addBlockToPool 7 1), .getBlockForInsertionInPartition 0 5]
    AdmissibleRun (initial ⟨1, 2, 3⟩ 2) actions ∧
      ((initial ⟨1, 2, 3⟩ 2).runActions actions).blocks.Perm
          ((initial ⟨1, 2, 3⟩ 2).introducedBy actions) ∧
        ((initial ⟨1, 2, 3⟩ 2).introducedBy actions).Nodup :=
  ⟨by decide, blocks_perm_introducedBy _ _ _ (by decide)⟩

/-- After an admissible run from construction that ends with every block returned,
`getPartiallyFilledBlocks` leaves every pool empty and hands out no null handle, and the
blocks handed to `partial_blocks`, the unloaded ids and the sealed ids are together the blocks
the run introduced, each once. -/
theorem getPartiallyFilledBlocks_after_quiescence (base : InsertDestination)
    (numPartitions : Nat) (actions : List PoolAction)
    (admissible : AdmissibleRun (initial base numPartitions) actions)
    (quiesced : ((initial base numPartitions).runActions actions).checkedOut = []) :
    let flushed :=
      ((initial base numPartitions).runActions actions).step (.pool .getPartiallyFilledBlocks)
    flushed.destination.availableBlockRefs.flatten = [] ∧
      MutableBlockReference.null ∉ flushed.partialBlocks ∧
      (flushed.partialBlocks.filterMap MutableBlockReference.getID? ++
          flushed.destination.availableBlockIds.flatten ++
          flushed.destination.doneBlockIds.flatten).Perm
        ((initial base numPartitions).introducedBy actions) ∧
      ((initial base numPartitions).introducedBy actions).Nodup := by
  intro flushed
  have inv := (Invariant.initial base numPartitions).runActions admissible
  have flushedInv : flushed.Invariant := inv.step trivial
  have drained : flushed.destination.availableBlockRefs.flatten = [] :=
    getPartiallyFilledBlocks_flatten_eq_nil inv.sized.1 _
  have flushedHandles : flushed.handles = flushed.partialBlocks := by
    have held : flushed.checkedOut = [] := quiesced
    simp only [handles, drained, held, List.map_nil, List.nil_append]
  have kept : flushed.blocks.Perm ((initial base numPartitions).runActions actions).blocks :=
    blocks_step_perm inv trivial
  have introduced := blocks_runActions_perm (Invariant.initial base numPartitions) admissible
  rw [blocks_initial, List.append_nil] at introduced
  refine ⟨drained, fun null => flushedInv.nonNull (flushedHandles ▸ null), ?_,
    introduced.nodup_iff.mp inv.unique⟩
  rw [← flushedHandles]
  exact kept.trans introduced

theorem getPartiallyFilledBlocks_after_checkout_and_return :
    let actions : List PoolAction :=
      [.pool (.addBlockToPool 7 1), .getBlockForInsertionInPartition 0 5,
        .returnBlockInPartition (.block 5) false 0 9]
    let flushed :=
      ((initial ⟨1, 2, 3⟩ 2).runActions actions).step (.pool .getPartiallyFilledBlocks)
    AdmissibleRun (initial ⟨1, 2, 3⟩ 2) actions ∧
      ((initial ⟨1, 2, 3⟩ 2).runActions actions).checkedOut = [] ∧
      flushed.destination.availableBlockRefs.flatten = [] ∧
      MutableBlockReference.null ∉ flushed.partialBlocks ∧
      (flushed.partialBlocks.filterMap MutableBlockReference.getID? ++
          flushed.destination.availableBlockIds.flatten ++
          flushed.destination.doneBlockIds.flatten).Perm
        ((initial ⟨1, 2, 3⟩ 2).introducedBy actions) ∧
      ((initial ⟨1, 2, 3⟩ 2).introducedBy actions).Nodup :=
  ⟨by decide, rfl, getPartiallyFilledBlocks_after_quiescence _ _ _ (by decide) rfl⟩

end QuickstepStorage.PoolSystem
