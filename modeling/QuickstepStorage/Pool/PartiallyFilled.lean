import QuickstepStorage.Model.PartitionAware

/-! # Handing out the partially filled blocks

`getPartiallyFilledBlocksInPartition` moves a partition's loaded blocks to the caller one
index at a time and then clears the moved-from slots; `getPartiallyFilledBlocks` does so for
every partition in turn. The loop invariants below show that each handle is handed out exactly
once and in pool order, and that the `clear()` after the loop destroys only moved-from handles;
this gives one closed form per method.
-/

namespace QuickstepStorage.PartitionAwareInsertDestination

/-- After `k` iterations the first `k` handles are at the end of `partial_blocks`, and the slots
the loop has not reached are untouched. -/
private theorem moveBlocks_invariant (pool partialBlocks : List MutableBlockReference) (k : Nat)
    (bound : k ≤ pool.length) :
    ((List.range k).foldl moveBlock (partialBlocks, pool)).1 = partialBlocks ++ pool.take k ∧
      ((List.range k).foldl moveBlock (partialBlocks, pool)).2.length = pool.length ∧
      ∀ j, k ≤ j →
        ((List.range k).foldl moveBlock (partialBlocks, pool)).2[j]? = pool[j]? := by
  induction k with
  | zero => simp
  | succ k ih =>
    obtain ⟨moved, length, rest⟩ := ih (by omega)
    have current :
        ((List.range k).foldl moveBlock (partialBlocks, pool)).2.getD k .null = pool[k] := by
      rw [List.getD_eq_getElem?_getD, rest k le_rfl, List.getElem?_eq_getElem (by omega)]
      rfl
    simp only [List.range_succ, List.foldl_append, List.foldl_cons, List.foldl_nil, moveBlock]
    refine ⟨?_, by simp [length], fun j later => ?_⟩
    · rw [moved, current, List.append_assoc, List.take_concat_get']
    · rw [List.getElem?_set_ne (by omega), rest j (by omega)]

/-- The loop hands out the whole pool, in pool order. -/
theorem moveBlocks_fst (pool partialBlocks : List MutableBlockReference) :
    (moveBlocks pool partialBlocks).1 = partialBlocks ++ pool := by
  rw [moveBlocks, (moveBlocks_invariant pool partialBlocks pool.length le_rfl).1, List.take_length]

/-- After `k` iterations the slots the loop has passed hold moved-from handles. -/
private theorem moveBlocks_snd_prefix (pool partialBlocks : List MutableBlockReference) (k : Nat)
    (bound : k ≤ pool.length) :
    ((List.range k).foldl moveBlock (partialBlocks, pool)).2 =
      List.replicate k .null ++ pool.drop k := by
  induction k with
  | zero => simp
  | succ k ih =>
    rw [List.range_succ, List.foldl_append, List.foldl_cons, List.foldl_nil, moveBlock,
      ih (by omega), List.drop_eq_getElem_cons (by omega : k < pool.length),
      List.set_append_right _ _ (by simp), List.length_replicate, Nat.sub_self, List.set_cons_zero,
      List.replicate_succ', List.append_assoc, List.singleton_append]

/-- The loop of `getPartiallyFilledBlocksInPartition` moves the pool, in order, to the end of
`partial_blocks` and leaves a moved-from handle in every slot, so the `clear()` after it releases
no block. -/
theorem moveBlocks_eq (pool partialBlocks : List MutableBlockReference) :
    moveBlocks pool partialBlocks = (partialBlocks ++ pool, List.replicate pool.length .null) := by
  refine Prod.ext (moveBlocks_fst pool partialBlocks) ?_
  rw [moveBlocks, moveBlocks_snd_prefix pool partialBlocks pool.length le_rfl, List.drop_length,
    List.append_nil]

/-- A partition's pool ends up, in order, at the end of `partial_blocks`, and the pool is empty. -/
theorem getPartiallyFilledBlocksInPartition_eq (d : PartitionAwareInsertDestination)
    (partialBlocks : List MutableBlockReference) (partId : PartitionId) :
    d.getPartiallyFilledBlocksInPartition partialBlocks partId =
      (partialBlocks ++ d.availableBlockRefs.getD partId [],
        { d with availableBlockRefs := d.availableBlockRefs.set partId [] }) := by
  rw [getPartiallyFilledBlocksInPartition, ← moveBlocks_fst]

/-- Emptying partition `k` after those below it empties those below `k + 1`. -/
private theorem clear_below_succ (refs : List (List MutableBlockReference)) (k : Nat) :
    (refs.mapIdx fun p pool => if p < k then [] else pool).set k [] =
      refs.mapIdx fun p pool => if p < k + 1 then [] else pool := by
  refine List.ext_getElem? fun i => ?_
  simp only [List.getElem?_set, List.getElem?_mapIdx, List.length_mapIdx]
  rcases Nat.lt_trichotomy i k with before | rfl | after
  · simp [before, Nat.ne_of_gt before, Nat.lt_succ_of_lt before]
  · by_cases inRange : i < refs.length
    · simp [inRange]
    · simp [inRange, List.getElem?_eq_none (Nat.le_of_not_lt inRange)]
  · simp [Nat.ne_of_lt after, Nat.not_lt_of_gt after, show ¬ i < k + 1 by omega]

/-- After the partitions below `k`, their pools are at the end of `partial_blocks` in partition
order and emptied in the destination; nothing else has changed. -/
theorem getPartiallyFilledBlocks_prefix (d : PartitionAwareInsertDestination)
    (partialBlocks : List MutableBlockReference) (k : Nat) :
    (List.range k).foldl
        (fun (state : List MutableBlockReference × PartitionAwareInsertDestination) partId =>
          state.2.getPartiallyFilledBlocksInPartition state.1 partId) (partialBlocks, d) =
      (partialBlocks ++ ((List.range k).map (d.availableBlockRefs.getD · [])).flatten,
        { d with availableBlockRefs :=
            d.availableBlockRefs.mapIdx fun p pool => if p < k then [] else pool }) := by
  induction k with
  | zero =>
    have unchanged : d.availableBlockRefs.mapIdx (fun _ pool => pool) = d.availableBlockRefs :=
      List.ext_getElem? fun i => by simp
    simp [unchanged]
  | succ k ih =>
    have reached :
        (d.availableBlockRefs.mapIdx fun p pool => if p < k then [] else pool).getD k [] =
          d.availableBlockRefs.getD k [] := by
      simp [List.getD_eq_getElem?_getD]
    rw [List.range_succ, List.foldl_append, ih]
    simp only [List.foldl_cons, List.foldl_nil, getPartiallyFilledBlocksInPartition_eq, reached,
      clear_below_succ, List.map_append, List.flatten_append, List.map_cons, List.map_nil,
      List.flatten_cons, List.flatten_nil, List.append_nil, List.append_assoc]

/-- Every partition's pool ends up, in partition order, at the end of `partial_blocks`. -/
theorem getPartiallyFilledBlocks_eq (d : PartitionAwareInsertDestination)
    (partialBlocks : List MutableBlockReference) :
    d.getPartiallyFilledBlocks partialBlocks =
      (partialBlocks ++
          ((List.range d.numPartitions).map (d.availableBlockRefs.getD · [])).flatten,
        { d with availableBlockRefs := d.availableBlockRefs.mapIdx fun p pool =>
            if p < d.numPartitions then [] else pool }) :=
  getPartiallyFilledBlocks_prefix d partialBlocks d.numPartitions

/-- With one vector per partition, no loaded block is left in any pool afterwards. -/
theorem getPartiallyFilledBlocks_flatten_eq_nil {d : PartitionAwareInsertDestination}
    (sized : d.availableBlockRefs.length = d.numPartitions)
    (partialBlocks : List MutableBlockReference) :
    (d.getPartiallyFilledBlocks partialBlocks).2.availableBlockRefs.flatten = [] := by
  rw [getPartiallyFilledBlocks_eq]
  refine List.flatten_eq_nil_iff.mpr fun pool member => ?_
  obtain ⟨p, below, rfl⟩ := List.mem_mapIdx.mp member
  simp [← sized, below]

/-- A destination whose partitions are all empty hands out nothing and stays as it is. -/
theorem getPartiallyFilledBlocks_of_empty (d : PartitionAwareInsertDestination)
    (partialBlocks : List MutableBlockReference)
    (empty : ∀ p < d.numPartitions, d.availableBlockRefs.getD p [] = []) :
    d.getPartiallyFilledBlocks partialBlocks = (partialBlocks, d) := by
  have nothing :
      ((List.range d.numPartitions).map (d.availableBlockRefs.getD · [])).flatten = [] :=
    List.flatten_eq_nil_iff.mpr fun pool member => by
      obtain ⟨p, below, rfl⟩ := List.mem_map.mp member
      exact empty p (List.mem_range.mp below)
  have same : (d.availableBlockRefs.mapIdx fun p pool =>
      if p < d.numPartitions then [] else pool) = d.availableBlockRefs := by
    refine List.ext_getElem? fun p => ?_
    by_cases below : p < d.numPartitions
    · have := empty p below
      cases h : d.availableBlockRefs[p]? <;> simp_all [List.getD_eq_getElem?_getD]
    · simp [below]
  rw [getPartiallyFilledBlocks_eq, nothing, same, List.append_nil]

/-- `getPartiallyFilledBlocks` hands out each pooled handle once, in partition and pool order,
empties every partition's pool and touches nothing else; a second call hands out nothing. -/
theorem getPartiallyFilledBlocks_transfers_once (d : PartitionAwareInsertDestination)
    (partialBlocks : List MutableBlockReference) :
    (d.getPartiallyFilledBlocks partialBlocks).1 = partialBlocks ++
        ((List.range d.numPartitions).map (d.availableBlockRefs.getD · [])).flatten ∧
      (∀ p < d.numPartitions, (d.getPartiallyFilledBlocks partialBlocks).2.availableBlockRefs[p]? =
        d.availableBlockRefs[p]?.map fun _ => []) ∧
      (d.getPartiallyFilledBlocks partialBlocks).2.availableBlockIds = d.availableBlockIds ∧
      (d.getPartiallyFilledBlocks partialBlocks).2.doneBlockIds = d.doneBlockIds ∧
      (d.getPartiallyFilledBlocks partialBlocks).2.allPartitionsDoneBlockIds =
        d.allPartitionsDoneBlockIds ∧
      ∀ later, (d.getPartiallyFilledBlocks partialBlocks).2.getPartiallyFilledBlocks later =
        (later, (d.getPartiallyFilledBlocks partialBlocks).2) := by
  rw [getPartiallyFilledBlocks_eq]
  refine ⟨rfl, fun p below => by simp [below], rfl, rfl, rfl, fun later => ?_⟩
  refine getPartiallyFilledBlocks_of_empty _ _ fun p below => ?_
  simp only [List.getD_eq_getElem?_getD, List.getElem?_mapIdx, show p < d.numPartitions from below]
  cases d.availableBlockRefs[p]? <;> rfl

example : (PartitionAwareInsertDestination.getPartiallyFilledBlocks
    ⟨2, [[.block 7, .block 8], [.block 9]], [[], [3]], [[], []], []⟩ [.block 1]) =
    ([.block 1, .block 7, .block 8, .block 9], ⟨2, [[], []], [[], [3]], [[], []], []⟩) := by
  decide

end QuickstepStorage.PartitionAwareInsertDestination
