import QuickstepStorage.Pool.Independence
import QuickstepStorage.Pool.Flush

/-! # Independence of partitions, with checkouts and returns

A checkout or a return holds only its partition's mutex, as the pool calls confined to one
partition do, and reads and writes only that partition's vectors; the message that ends a seal is
sent with no mutex held and touches no vector. So over any interleaving of
the workers' and the operator's actions, a partition's vectors are those that the actions under
its own mutex leave, in their order: no action under another partition's mutex is seen or lost.
-/

namespace QuickstepStorage

/-- Whether the action takes partition `q`'s mutex. -/
def PoolAction.locks (q : PartitionId) : PoolAction → Bool
  | .pool call => call.locks q
  | .getBlockForInsertionInPartition partId _ => partId = q
  | .returnBlockInPartition _ _ partId _ => partId = q
  | .sendBlockFilledMessage _ _ => false

namespace PartitionAwareInsertDestination

/-- A checkout on partition `p` leaves every other partition's vectors alone. -/
theorem partitionState_getBlockForInsertionInPartition_of_ne (d : PartitionAwareInsertDestination)
    {p q : PartitionId} (newId : BlockId) (other : p ≠ q) :
    (d.getBlockForInsertionInPartition p newId).2.partitionState q = d.partitionState q := by
  rcases d.getBlockForInsertionInPartition_cases p newId with
    ⟨_, _, checkout⟩ | ⟨-, _, _, checkout⟩ | ⟨-, -, checkout⟩ <;>
    simp [checkout, partitionState, List.getElem?_modify_ne _ _ other]

/-- What a checkout on partition `q` leaves there depends only on what `q` held. -/
theorem partitionState_getBlockForInsertionInPartition_congr
    {d d' : PartitionAwareInsertDestination} {q : PartitionId} (newId : BlockId)
    (same : d.partitionState q = d'.partitionState q) :
    (d.getBlockForInsertionInPartition q newId).2.partitionState q =
      (d'.getBlockForInsertionInPartition q newId).2.partitionState q := by
  simp only [partitionState, Prod.mk.injEq] at same
  obtain ⟨refs, ids, done⟩ := same
  have loaded : d.availableBlockRefs.getD q [] = d'.availableBlockRefs.getD q [] := by
    simp only [List.getD_eq_getElem?_getD, refs]
  have unloaded : d.availableBlockIds.getD q [] = d'.availableBlockIds.getD q [] := by
    simp only [List.getD_eq_getElem?_getD, ids]
  unfold getBlockForInsertionInPartition
  rw [loaded, unloaded]
  split
  · simp [partitionState, List.getElem?_modify, refs, ids, done]
  · split <;> simp [partitionState, List.getElem?_modify, refs, ids, done]

/-- A return to partition `p` leaves every other partition's vectors alone. -/
theorem partitionState_returnBlockInPartition_of_ne (d : PartitionAwareInsertDestination)
    (block : MutableBlockReference) (full : Bool) {p q : PartitionId} (other : p ≠ q) :
    (d.returnBlockInPartition block full p).1.partitionState q = d.partitionState q := by
  cases full <;> cases block <;>
    simp [returnBlockInPartition, MutableBlockReference.getID?, partitionState,
      List.getElem?_modify_ne _ _ other]

/-- What a return to partition `q` leaves there depends only on what `q` held. -/
theorem partitionState_returnBlockInPartition_congr {d d' : PartitionAwareInsertDestination}
    (block : MutableBlockReference) (full : Bool) {q : PartitionId}
    (same : d.partitionState q = d'.partitionState q) :
    (d.returnBlockInPartition block full q).1.partitionState q =
      (d'.returnBlockInPartition block full q).1.partitionState q := by
  simp only [partitionState, Prod.mk.injEq] at same ⊢
  obtain ⟨refs, ids, done⟩ := same
  cases full <;> cases block <;>
    simp [returnBlockInPartition, MutableBlockReference.getID?, List.getElem?_modify, refs, ids,
      done]

end PartitionAwareInsertDestination

namespace PoolSystem

open PartitionAwareInsertDestination

@[simp] theorem numPartitions_step (s : PoolSystem) (action : PoolAction) :
    (s.step action).destination.numPartitions = s.destination.numPartitions := by
  rcases action with call | ⟨partId, newId⟩ | ⟨block, full, partId, worker⟩ | ⟨id, worker⟩
  · simp [step]
  · simp [step]
  · cases full <;> cases block <;>
      simp [step, returnBlockInPartition, MutableBlockReference.getID?]
  · rfl

/-- An action that does not take partition `q`'s mutex leaves `q`'s vectors alone. -/
theorem partitionState_step_of_not_locks (s : PoolSystem) (action : PoolAction)
    {q : PartitionId} (other : action.locks q = false) :
    (s.step action).destination.partitionState q = s.destination.partitionState q := by
  cases action with
  | pool call => exact call.partitionState_apply_of_not_locks _ other
  | getBlockForInsertionInPartition partId newId =>
    exact partitionState_getBlockForInsertionInPartition_of_ne _ newId
      (by simpa [PoolAction.locks] using other)
  | returnBlockInPartition block full partId worker =>
    exact partitionState_returnBlockInPartition_of_ne _ _ _
      (by simpa [PoolAction.locks] using other)
  | sendBlockFilledMessage id worker => rfl

/-- What an action leaves in partition `q` depends only on what `q` held and the partition
count. -/
theorem partitionState_step_congr (action : PoolAction) {s s' : PoolSystem} {q : PartitionId}
    (same : s.destination.partitionState q = s'.destination.partitionState q)
    (count : s.destination.numPartitions = s'.destination.numPartitions) :
    (s.step action).destination.partitionState q =
      (s'.step action).destination.partitionState q := by
  cases locked : action.locks q with
  | false =>
    rw [partitionState_step_of_not_locks s action locked,
      partitionState_step_of_not_locks s' action locked, same]
  | true =>
    cases action with
    | pool call =>
      exact @PoolCall.partitionState_apply_congr call (s.partialBlocks, s.destination)
        (s'.partialBlocks, s'.destination) q same count
    | getBlockForInsertionInPartition partId newId =>
      obtain rfl : partId = q := by simpa [PoolAction.locks] using locked
      exact partitionState_getBlockForInsertionInPartition_congr newId same
    | returnBlockInPartition block full partId worker =>
      obtain rfl : partId = q := by simpa [PoolAction.locks] using locked
      exact partitionState_returnBlockInPartition_congr block full same
    | sendBlockFilledMessage id worker => cases locked

private theorem runActions_partitionState_of_agree (actions : List PoolAction)
    (q : PartitionId) :
    ∀ s s' : PoolSystem, s.destination.partitionState q = s'.destination.partitionState q →
      s.destination.numPartitions = s'.destination.numPartitions →
      (s.runActions actions).destination.partitionState q =
        (s'.runActions (actions.filter (PoolAction.locks q))).destination.partitionState q := by
  induction actions with
  | nil => exact fun _ _ same _ => same
  | cons action actions ih =>
    intro s s' same count
    cases locked : action.locks q with
    | false =>
      rw [List.filter_cons_of_neg (by simp [locked]), runActions_cons]
      exact ih _ _ ((partitionState_step_of_not_locks s action locked).trans same)
        (by simpa using count)
    | true =>
      rw [List.filter_cons_of_pos locked, runActions_cons, runActions_cons]
      exact ih _ _ (partitionState_step_congr action same count) (by simpa using count)

/-- Over any run of pool calls, checkouts, returns and seal messages, a partition's vectors are
those left by the run's actions that take its mutex, alone and in order. -/
theorem runActions_partitionState (s : PoolSystem) (actions : List PoolAction)
    (q : PartitionId) :
    (s.runActions actions).destination.partitionState q =
      (s.runActions (actions.filter (PoolAction.locks q))).destination.partitionState q :=
  runActions_partitionState_of_agree actions q s s rfl rfl

end PoolSystem

end QuickstepStorage
