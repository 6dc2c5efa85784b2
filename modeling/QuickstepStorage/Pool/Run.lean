import QuickstepStorage.Pool.PartiallyFilled
import Mathlib.Data.List.Perm.Basic

/-! # Runs of pool calls

Any sequence of `addBlockToPool`, `getPartiallyFilledBlocksInPartition` and
`getPartiallyFilledBlocks` calls, threading one `partial_blocks` vector. Each call keeps the
conservation invariant `Conserves` and appends to a partition's unloaded ids only the id it
adds there, so by induction a whole run does; a call confined to one partition frames the rest.
-/

namespace QuickstepStorage

/-- A call of the pool interface of `PartitionAwareInsertDestination`. -/
inductive PoolCall where
  | addBlockToPool (bid : BlockId) (partId : PartitionId)
  | getPartiallyFilledBlocksInPartition (partId : PartitionId)
  | getPartiallyFilledBlocks
deriving DecidableEq, Repr

namespace PoolCall

/-- The partition whose mutex the call holds throughout, for the calls confined to one. -/
def partition? : PoolCall → Option PartitionId
  | addBlockToPool _ partId => some partId
  | getPartiallyFilledBlocksInPartition partId => some partId
  | getPartiallyFilledBlocks => none

/-- The id the call appends to partition `q`'s `available_block_ids_`, if any. -/
def idAddedTo (q : PartitionId) : PoolCall → Option BlockId
  | addBlockToPool bid partId => if partId = q then some bid else none
  | _ => none

/-- The call on the caller's `partial_blocks` and the destination. -/
def apply (call : PoolCall)
    (state : List MutableBlockReference × PartitionAwareInsertDestination) :
    List MutableBlockReference × PartitionAwareInsertDestination :=
  match call with
  | addBlockToPool bid partId => (state.1, state.2.addBlockToPool bid partId)
  | getPartiallyFilledBlocksInPartition partId =>
    state.2.getPartiallyFilledBlocksInPartition state.1 partId
  | getPartiallyFilledBlocks => state.2.getPartiallyFilledBlocks state.1

end PoolCall

/-- Calls one after another from `start`, with one `partial_blocks` vector. -/
def run (calls : List PoolCall)
    (start : List MutableBlockReference × PartitionAwareInsertDestination) :
    List MutableBlockReference × PartitionAwareInsertDestination :=
  calls.foldl (fun state call => call.apply state) start

@[simp] theorem run_nil (start : List MutableBlockReference × PartitionAwareInsertDestination) :
    run [] start = start := rfl

@[simp] theorem run_cons (call : PoolCall) (calls : List PoolCall)
    (start : List MutableBlockReference × PartitionAwareInsertDestination) :
    run (call :: calls) start = run calls (call.apply start) := rfl

/-- The handles pooled at `start` are, each exactly once, either appended to `partial_blocks`
since `start` or still pooled in `now`. -/
def Conserves (start now : List MutableBlockReference × PartitionAwareInsertDestination) : Prop :=
  ∃ handed, now.1 = start.1 ++ handed ∧
    (handed ++ now.2.availableBlockRefs.flatten).Perm start.2.availableBlockRefs.flatten

namespace Conserves

variable {start middle now : List MutableBlockReference × PartitionAwareInsertDestination}

theorem refl (start : List MutableBlockReference × PartitionAwareInsertDestination) :
    Conserves start start :=
  ⟨[], by simp, List.Perm.refl _⟩

theorem trans (first : Conserves start middle) (second : Conserves middle now) :
    Conserves start now := by
  obtain ⟨handed, appended, perm⟩ := first
  obtain ⟨handed', appended', perm'⟩ := second
  refine ⟨handed ++ handed', by rw [appended', appended, List.append_assoc], ?_⟩
  rw [List.append_assoc]
  exact (perm'.append_left handed).trans perm

end Conserves

/-- Taking one pool out of a vector of pools and emptying its slot loses and duplicates nothing. -/
private theorem getD_append_flatten_set_perm (pools : List (List MutableBlockReference))
    (partId : PartitionId) :
    (pools.getD partId [] ++ (pools.set partId []).flatten).Perm pools.flatten := by
  induction pools generalizing partId with
  | nil => simp
  | cons pool pools ih =>
    cases partId with
    | zero => simp
    | succ partId =>
      simpa only [List.getD_cons_succ, List.set_cons_succ, List.flatten_cons] using
        (List.perm_append_comm_assoc _ _ _).trans ((ih partId).append_left pool)

namespace PartitionAwareInsertDestination

theorem conserves_getPartiallyFilledBlocksInPartition (d : PartitionAwareInsertDestination)
    (partialBlocks : List MutableBlockReference) (partId : PartitionId) :
    Conserves (partialBlocks, d) (d.getPartiallyFilledBlocksInPartition partialBlocks partId) := by
  rw [getPartiallyFilledBlocksInPartition_eq]
  exact ⟨_, rfl, getD_append_flatten_set_perm _ _⟩

end PartitionAwareInsertDestination

namespace PoolCall

open PartitionAwareInsertDestination

/-- `getPartiallyFilledBlocks` is the run of its per-partition calls, in partition order. -/
theorem apply_getPartiallyFilledBlocks
    (state : List MutableBlockReference × PartitionAwareInsertDestination) :
    getPartiallyFilledBlocks.apply state =
      run ((List.range state.2.numPartitions).map getPartiallyFilledBlocksInPartition) state := by
  rw [run, List.foldl_map]
  rfl

private theorem conserves_run_inPartition (partIds : List PartitionId)
    (state : List MutableBlockReference × PartitionAwareInsertDestination) :
    Conserves state (run (partIds.map getPartiallyFilledBlocksInPartition) state) := by
  induction partIds generalizing state with
  | nil => exact Conserves.refl state
  | cons partId partIds ih =>
    exact (conserves_getPartiallyFilledBlocksInPartition state.2 state.1 partId).trans (ih _)

/-- No call loses or duplicates a pooled handle. -/
theorem conserves_apply (call : PoolCall)
    (state : List MutableBlockReference × PartitionAwareInsertDestination) :
    Conserves state (call.apply state) := by
  cases call with
  | addBlockToPool bid partId => exact ⟨[], by simp [apply], by simp [apply]⟩
  | getPartiallyFilledBlocksInPartition partId =>
    exact conserves_getPartiallyFilledBlocksInPartition state.2 state.1 partId
  | getPartiallyFilledBlocks =>
    rw [apply_getPartiallyFilledBlocks]
    exact conserves_run_inPartition _ state

@[simp] theorem numPartitions_apply (call : PoolCall)
    (state : List MutableBlockReference × PartitionAwareInsertDestination) :
    (call.apply state).2.numPartitions = state.2.numPartitions := by
  cases call <;> simp [apply, getPartiallyFilledBlocksInPartition_eq, getPartiallyFilledBlocks_eq]

@[simp] theorem doneBlockIds_apply (call : PoolCall)
    (state : List MutableBlockReference × PartitionAwareInsertDestination) :
    (call.apply state).2.doneBlockIds = state.2.doneBlockIds := by
  cases call <;> simp [apply, getPartiallyFilledBlocksInPartition_eq, getPartiallyFilledBlocks_eq]

@[simp] theorem availableBlockRefs_length_apply (call : PoolCall)
    (state : List MutableBlockReference × PartitionAwareInsertDestination) :
    (call.apply state).2.availableBlockRefs.length = state.2.availableBlockRefs.length := by
  cases call <;> simp [apply, getPartiallyFilledBlocksInPartition_eq, getPartiallyFilledBlocks_eq]

@[simp] theorem availableBlockIds_length_apply (call : PoolCall)
    (state : List MutableBlockReference × PartitionAwareInsertDestination) :
    (call.apply state).2.availableBlockIds.length = state.2.availableBlockIds.length := by
  cases call <;> simp [apply, getPartiallyFilledBlocksInPartition_eq, getPartiallyFilledBlocks_eq]

/-- A call appends to partition `q`'s unloaded ids exactly the id it adds there. -/
theorem availableBlockIds_apply (call : PoolCall)
    (state : List MutableBlockReference × PartitionAwareInsertDestination) (q : PartitionId) :
    (call.apply state).2.availableBlockIds[q]? =
      state.2.availableBlockIds[q]?.map (· ++ (call.idAddedTo q).toList) := by
  cases call with
  | addBlockToPool bid partId =>
    by_cases same : partId = q <;> simp [apply, idAddedTo, List.getElem?_modify, same]
  | getPartiallyFilledBlocksInPartition partId =>
    simp [apply, idAddedTo, getPartiallyFilledBlocksInPartition_eq]
  | getPartiallyFilledBlocks => simp [apply, idAddedTo, getPartiallyFilledBlocks_eq]

/-- A call confined to partition `p` leaves every other partition's three vectors alone. -/
theorem apply_frame (call : PoolCall)
    (state : List MutableBlockReference × PartitionAwareInsertDestination) (p q : PartitionId)
    (confined : call.partition? = some p) (other : q ≠ p) :
    (call.apply state).2.availableBlockRefs[q]? = state.2.availableBlockRefs[q]? ∧
      (call.apply state).2.availableBlockIds[q]? = state.2.availableBlockIds[q]? ∧
      (call.apply state).2.doneBlockIds[q]? = state.2.doneBlockIds[q]? := by
  cases call with
  | addBlockToPool bid partId =>
    cases confined
    simp [apply, List.getElem?_modify, Ne.symm other]
  | getPartiallyFilledBlocksInPartition partId =>
    cases confined
    simp [apply, getPartiallyFilledBlocksInPartition_eq, List.getElem?_set_ne (Ne.symm other)]
  | getPartiallyFilledBlocks => cases confined

end PoolCall

theorem conserves_run (calls : List PoolCall)
    (start : List MutableBlockReference × PartitionAwareInsertDestination) :
    Conserves start (run calls start) := by
  induction calls generalizing start with
  | nil => exact Conserves.refl start
  | cons call calls ih => exact (call.conserves_apply start).trans (ih _)

private theorem filterMap_cons_toList {α β : Type} (f : α → Option β) (a : α) (l : List α) :
    (a :: l).filterMap f = (f a).toList ++ l.filterMap f := by
  cases h : f a <;> simp [List.filterMap_cons, h]

/-- Partition `q`'s unloaded ids after a run: those before it, then the ids the run's
`addBlockToPool` calls added to `q`, in call order. -/
theorem availableBlockIds_run (calls : List PoolCall)
    (start : List MutableBlockReference × PartitionAwareInsertDestination) (q : PartitionId) :
    (run calls start).2.availableBlockIds[q]? =
      start.2.availableBlockIds[q]?.map (· ++ calls.filterMap (PoolCall.idAddedTo q)) := by
  induction calls generalizing start with
  | nil => simp
  | cons call calls ih =>
    rw [run_cons, ih, call.availableBlockIds_apply, Option.map_map, filterMap_cons_toList]
    simp [Function.comp_def]

theorem run_conserves_blocks (d : PartitionAwareInsertDestination)
    (partialBlocks : List MutableBlockReference) (calls : List PoolCall) :
    Conserves (partialBlocks, d) (run calls (partialBlocks, d)) ∧
      (∀ q, (run calls (partialBlocks, d)).2.availableBlockIds[q]? =
        d.availableBlockIds[q]?.map (· ++ calls.filterMap (PoolCall.idAddedTo q))) ∧
      ∀ (call : PoolCall) (state : List MutableBlockReference × PartitionAwareInsertDestination)
        (p q : PartitionId), call.partition? = some p → q ≠ p →
        (call.apply state).2.availableBlockRefs[q]? = state.2.availableBlockRefs[q]? ∧
          (call.apply state).2.availableBlockIds[q]? = state.2.availableBlockIds[q]? ∧
          (call.apply state).2.doneBlockIds[q]? = state.2.doneBlockIds[q]? :=
  ⟨conserves_run calls _, availableBlockIds_run calls _, PoolCall.apply_frame⟩

end QuickstepStorage
