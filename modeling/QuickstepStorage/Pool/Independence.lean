import QuickstepStorage.Pool.Run

/-! # Independence of partitions

Each partition's vectors are guarded by that partition's spin mutex alone. Two calls under
different mutexes commute, and a partition's vectors after any run are those that the run's
calls under its own mutex leave: the other partitions' calls neither read nor write them. This
is what lets inserts into different partitions proceed without serializing on one lock.
-/

namespace QuickstepStorage

/-- The three vectors that partition `q`'s mutex guards. -/
def PartitionAwareInsertDestination.partitionState (d : PartitionAwareInsertDestination)
    (q : PartitionId) :
    Option (List MutableBlockReference) × Option (List BlockId) × Option (List BlockId) :=
  (d.availableBlockRefs[q]?, d.availableBlockIds[q]?, d.doneBlockIds[q]?)

/-- Whether the call takes partition `q`'s mutex. -/
def PoolCall.locks (q : PartitionId) : PoolCall → Bool
  | addBlockToPool _ partId => partId = q
  | getPartiallyFilledBlocksInPartition partId => partId = q
  | getPartiallyFilledBlocks => true

/-- Emptying one partition's pool leaves the other partitions' pools readable as before. -/
private theorem getD_set_ne (pools : List (List MutableBlockReference)) {p q : PartitionId}
    (distinct : p ≠ q) : (pools.set p []).getD q [] = pools.getD q [] := by
  simp only [List.getD_eq_getElem?_getD, List.getElem?_set_ne distinct]

namespace PoolCall

open PartitionAwareInsertDestination

/-- Calls confined to different partitions commute: either order leaves the same destination,
and `partial_blocks` receives the same handles. -/
theorem apply_comm (a b : PoolCall)
    (state : List MutableBlockReference × PartitionAwareInsertDestination) {p q : PartitionId}
    (onP : a.partition? = some p) (onQ : b.partition? = some q) (distinct : p ≠ q) :
    (b.apply (a.apply state)).2 = (a.apply (b.apply state)).2 ∧
      (b.apply (a.apply state)).1.Perm (a.apply (b.apply state)).1 := by
  cases a <;> cases b <;> cases onP <;> cases onQ <;>
    simp only [apply, getPartiallyFilledBlocksInPartition_eq,
      PartitionAwareInsertDestination.addBlockToPool, List.modify_modify_ne _ _ _ distinct.symm,
      List.set_comm _ _ _ distinct, getD_set_ne _ distinct, getD_set_ne _ distinct.symm,
      List.append_assoc, List.Perm.refl, and_true, true_and]
  exact List.perm_append_comm.append_left _

theorem apply_comm_two_partitions :
    (getPartiallyFilledBlocksInPartition 0).partition? = some 0 ∧
      (getPartiallyFilledBlocksInPartition 1).partition? = some 1 ∧ (0 : PartitionId) ≠ 1 ∧
      let state : List MutableBlockReference × PartitionAwareInsertDestination :=
        ([], ⟨2, [[.block 3], [.block 4]], [[], []], [[], []], []⟩)
      ((getPartiallyFilledBlocksInPartition 1).apply
          ((getPartiallyFilledBlocksInPartition 0).apply state)).2 =
        ((getPartiallyFilledBlocksInPartition 0).apply
          ((getPartiallyFilledBlocksInPartition 1).apply state)).2 ∧
      ((getPartiallyFilledBlocksInPartition 1).apply
          ((getPartiallyFilledBlocksInPartition 0).apply state)).1.Perm
        ((getPartiallyFilledBlocksInPartition 0).apply
          ((getPartiallyFilledBlocksInPartition 1).apply state)).1 :=
  ⟨rfl, rfl, by decide, apply_comm _ _ _ rfl rfl (by decide)⟩

/-- A call that does not take partition `q`'s mutex leaves `q`'s vectors alone. -/
theorem partitionState_apply_of_not_locks (call : PoolCall)
    (state : List MutableBlockReference × PartitionAwareInsertDestination) {q : PartitionId}
    (other : call.locks q = false) :
    (call.apply state).2.partitionState q = state.2.partitionState q := by
  obtain ⟨p, confined, distinct⟩ : ∃ p, call.partition? = some p ∧ q ≠ p := by
    cases call <;> simp_all [locks, partition?, eq_comm]
  obtain ⟨refs, ids, done⟩ := apply_frame call state p q confined distinct
  simp only [partitionState, refs, ids, done]

/-- What a call leaves in partition `q` depends only on what `q` held and the partition count. -/
theorem partitionState_apply_congr (call : PoolCall)
    {state state' : List MutableBlockReference × PartitionAwareInsertDestination} {q : PartitionId}
    (same : state.2.partitionState q = state'.2.partitionState q)
    (count : state.2.numPartitions = state'.2.numPartitions) :
    (call.apply state).2.partitionState q = (call.apply state').2.partitionState q := by
  simp only [partitionState, Prod.mk.injEq] at same
  obtain ⟨refs, ids, done⟩ := same
  cases call <;>
    simp [partitionState, apply, getPartiallyFilledBlocksInPartition_eq,
      getPartiallyFilledBlocks_eq, List.getElem?_modify, List.getElem?_set', refs, ids, done, count]

end PoolCall

private theorem run_partitionState_of_agree (calls : List PoolCall) (q : PartitionId) :
    ∀ state state' : List MutableBlockReference × PartitionAwareInsertDestination,
      state.2.partitionState q = state'.2.partitionState q →
      state.2.numPartitions = state'.2.numPartitions →
      (run calls state).2.partitionState q =
        (run (calls.filter (PoolCall.locks q)) state').2.partitionState q := by
  induction calls with
  | nil => exact fun _ _ same _ => same
  | cons call calls ih =>
    intro state state' same count
    cases locked : call.locks q with
    | false =>
      rw [List.filter_cons_of_neg (by simp [locked]), run_cons]
      exact ih _ _ ((call.partitionState_apply_of_not_locks state locked).trans same)
        (by simpa using count)
    | true =>
      rw [List.filter_cons_of_pos locked, run_cons, run_cons]
      exact ih _ _ (call.partitionState_apply_congr same count) (by simpa using count)

/-- A partition's vectors after a run are those left by the run's calls that take its mutex
alone: calls under other partitions' mutexes neither see nor change them. -/
theorem run_partitionState (calls : List PoolCall)
    (start : List MutableBlockReference × PartitionAwareInsertDestination) (q : PartitionId) :
    (run calls start).2.partitionState q =
      (run (calls.filter (PoolCall.locks q)) start).2.partitionState q :=
  run_partitionState_of_agree calls q start start rfl rfl

end QuickstepStorage
