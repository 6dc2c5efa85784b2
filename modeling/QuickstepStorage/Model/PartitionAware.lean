import Mathlib.Data.List.Basic

/-! # The block pool of the partition-aware insert destination

`PartitionAwareInsertDestination` keeps three vectors per partition of the output relation:
loaded blocks ready for insertion, ids of blocks not loaded yet, and ids of sealed blocks.
Every method here runs under its partition's spin mutex, so each is one atomic step on the
state below; the mutexes carry no data and are not represented.
-/

namespace QuickstepStorage

/-- `block_id`: the 64-bit id the storage manager assigns to a block. -/
abbrev BlockId := UInt64

/-- `partition_id`, a `std::size_t`. Ids are only compared with the partition count, which is
itself a `std::size_t`, so no counter below it wraps. -/
abbrev PartitionId := Nat

/-- `MutableBlockReference`: an owning handle that pins one block, or the null handle that
`std::move` leaves in the moved-from slot. -/
inductive MutableBlockReference where
  | null
  | block (id : BlockId)
deriving DecidableEq, Repr

/-- The pool members of `PartitionAwareInsertDestination`, each a vector indexed by
`partition_id`. -/
structure PartitionAwareInsertDestination where
  /-- `relation_->getPartitionScheme().getNumPartitions()`. -/
  numPartitions : Nat
  /-- `available_block_refs_`: loaded blocks ready for insertion. -/
  availableBlockRefs : List (List MutableBlockReference)
  /-- `available_block_ids_`: blocks of the relation that are not loaded yet. -/
  availableBlockIds : List (List BlockId)
  /-- `done_block_ids_`: blocks sealed as full. -/
  doneBlockIds : List (List BlockId)
  /-- `all_partitions_done_block_ids_`. -/
  allPartitionsDoneBlockIds : List BlockId
deriving DecidableEq, Repr

namespace PartitionAwareInsertDestination

/-- `addBlockToPool(bid, part_id)`: `available_block_ids_[part_id].push_back(bid)`. -/
def addBlockToPool (d : PartitionAwareInsertDestination) (bid : BlockId) (partId : PartitionId) :
    PartitionAwareInsertDestination :=
  { d with availableBlockIds := d.availableBlockIds.modify (· ++ [bid]) partId }

/-- One iteration of the `for` loop of `getPartiallyFilledBlocksInPartition` on the pair
`(partial_blocks, pool)`: `partial_blocks->push_back(std::move(pool[i]))`, which leaves the
null handle in slot `i`. -/
def moveBlock (moved : List MutableBlockReference × List MutableBlockReference) (i : Nat) :
    List MutableBlockReference × List MutableBlockReference :=
  (moved.1 ++ [moved.2.getD i .null], moved.2.set i .null)

/-- The whole loop, `i` from `0` while `i < pool.size()`. A move keeps the pool's size, so the
bound the loop re-reads is the size it started with. -/
def moveBlocks (pool partialBlocks : List MutableBlockReference) :
    List MutableBlockReference × List MutableBlockReference :=
  (List.range pool.length).foldl moveBlock (partialBlocks, pool)

/-- `getPartiallyFilledBlocksInPartition(partial_blocks, part_id)`: move every loaded block of
the partition to the end of `partial_blocks`, then `available_block_refs_[part_id].clear()`. -/
def getPartiallyFilledBlocksInPartition (d : PartitionAwareInsertDestination)
    (partialBlocks : List MutableBlockReference) (partId : PartitionId) :
    List MutableBlockReference × PartitionAwareInsertDestination :=
  let (partialBlocks, _) := moveBlocks (d.availableBlockRefs.getD partId []) partialBlocks
  (partialBlocks, { d with availableBlockRefs := d.availableBlockRefs.set partId [] })

/-- `getPartiallyFilledBlocks(partial_blocks)`: the partitions `0, 1, ..., num_partitions - 1`
in turn, each by `getPartiallyFilledBlocksInPartition`. -/
def getPartiallyFilledBlocks (d : PartitionAwareInsertDestination)
    (partialBlocks : List MutableBlockReference) :
    List MutableBlockReference × PartitionAwareInsertDestination :=
  (List.range d.numPartitions).foldl
    (fun (state : List MutableBlockReference × PartitionAwareInsertDestination) partId =>
      state.2.getPartiallyFilledBlocksInPartition state.1 partId)
    (partialBlocks, d)

@[simp] theorem addBlockToPool_numPartitions (d : PartitionAwareInsertDestination) bid partId :
    (d.addBlockToPool bid partId).numPartitions = d.numPartitions := rfl

@[simp] theorem addBlockToPool_availableBlockRefs (d : PartitionAwareInsertDestination) bid partId :
    (d.addBlockToPool bid partId).availableBlockRefs = d.availableBlockRefs := rfl

@[simp] theorem addBlockToPool_availableBlockIds (d : PartitionAwareInsertDestination) bid partId :
    (d.addBlockToPool bid partId).availableBlockIds =
      d.availableBlockIds.modify (· ++ [bid]) partId := rfl

@[simp] theorem addBlockToPool_doneBlockIds (d : PartitionAwareInsertDestination) bid partId :
    (d.addBlockToPool bid partId).doneBlockIds = d.doneBlockIds := rfl

@[simp] theorem addBlockToPool_allPartitionsDoneBlockIds (d : PartitionAwareInsertDestination)
    bid partId :
    (d.addBlockToPool bid partId).allPartitionsDoneBlockIds = d.allPartitionsDoneBlockIds := rfl

end PartitionAwareInsertDestination

end QuickstepStorage
