import QuickstepStorage.Pool.Run

/-! # Checking blocks out, returning them, and sealing

The members of the base class that `sendBlockFilledMessage` reads and the message it sends,
then the per-partition checkout protocol around the pool. The header declares
`getBlockForInsertionInPartition` and `returnBlockInPartition` without their bodies; they follow
the block pool's description, which keeps only the vector push or pop under the mutex. A seal is
therefore two steps: the worker appends the block's id to its partition's done ids under the
mutex, and tells the Foreman after releasing it. `PoolSystem` puts the destination together with
the blocks its workers hold, the seals in progress, the caller's `partial_blocks` and the
messages the Foreman has been sent.
-/

namespace QuickstepStorage

/-- `tmb::client_id`. -/
abbrev ClientId := Nat

/-- The members of the base class `InsertDestination` that `sendBlockFilledMessage` reads. -/
structure InsertDestination where
  /-- `relation_->getID()`, as `set_relation_id` stores it in the message's `uint32` field. -/
  relationId : UInt32
  /-- `relational_op_index_`, a `std::size_t`. -/
  relationalOpIndex : UInt64
  /-- `foreman_client_id_`. -/
  foremanClientId : ClientId
deriving DecidableEq, Repr

/-- `serialization::DataPipelineMessage`, with the widths of its wire fields. -/
structure DataPipelineMessage where
  operatorIndex : UInt32
  blockId : BlockId
  relationId : UInt32
deriving DecidableEq, Repr

/-- A `kDataPipelineMessage` handed to `QueryExecutionUtil::SendTMBMessage`; its serialized
bytes are kept as the message's fields. -/
structure SentMessage where
  sender : ClientId
  receiver : ClientId
  message : DataPipelineMessage
deriving DecidableEq, Repr

/-- `sendBlockFilledMessage(id)` on a worker thread, whose TMB client id `worker` is what
`ClientIDMap::Instance()->getValue()` returns there. `set_operator_index` narrows the
`std::size_t` `relational_op_index_` to the `uint32` field, that is, modulo `2 ^ 32`. -/
def InsertDestination.sendBlockFilledMessage (base : InsertDestination) (worker : ClientId)
    (id : BlockId) : SentMessage :=
  { sender := worker
    receiver := base.foremanClientId
    message := { operatorIndex := base.relationalOpIndex.toUInt32, blockId := id,
                 relationId := base.relationId } }

/-- `block->getID()`; the null handle has no block. -/
def MutableBlockReference.getID? : MutableBlockReference → Option BlockId
  | null => none
  | block id => some id

namespace PartitionAwareInsertDestination

/-- Modelled from the spec: the body of `getBlockForInsertionInPartition(part_id)` is not in the
header. The block pool's order of preference: pop a loaded block of the partition, else pop an
unloaded id and load its block, else create a block under the id `newId` that the storage
manager assigns. -/
def getBlockForInsertionInPartition (d : PartitionAwareInsertDestination) (partId : PartitionId)
    (newId : BlockId) : MutableBlockReference × PartitionAwareInsertDestination :=
  match (d.availableBlockRefs.getD partId []).getLast? with
  | some block =>
    (block, { d with availableBlockRefs := d.availableBlockRefs.modify List.dropLast partId })
  | none =>
    match (d.availableBlockIds.getD partId []).getLast? with
    | some id =>
      (.block id, { d with availableBlockIds := d.availableBlockIds.modify List.dropLast partId })
    | none => (.block newId, d)

/-- Modelled from the spec: the body of `returnBlockInPartition(block, full, part_id)` is not in
the header. Under the partition's mutex, a block returned not full goes back on the partition's
loaded blocks, and a full one has its id appended to the partition's done ids. Returns the
destination and the id sealed, which the worker announces with `sendBlockFilledMessage` once it
has released the mutex. -/
def returnBlockInPartition (d : PartitionAwareInsertDestination) (block : MutableBlockReference)
    (full : Bool) (partId : PartitionId) : PartitionAwareInsertDestination × Option BlockId :=
  if full then
    match block.getID? with
    | some id => ({ d with doneBlockIds := d.doneBlockIds.modify (· ++ [id]) partId }, some id)
    | none => (d, none)
  else ({ d with availableBlockRefs := d.availableBlockRefs.modify (· ++ [block]) partId }, none)

@[simp] theorem returnBlockInPartition_false (d : PartitionAwareInsertDestination)
    (block : MutableBlockReference) (partId : PartitionId) :
    d.returnBlockInPartition block false partId =
      ({ d with availableBlockRefs := d.availableBlockRefs.modify (· ++ [block]) partId }, none) :=
  rfl

@[simp] theorem returnBlockInPartition_true (d : PartitionAwareInsertDestination) (id : BlockId)
    (partId : PartitionId) :
    d.returnBlockInPartition (.block id) true partId =
      ({ d with doneBlockIds := d.doneBlockIds.modify (· ++ [id]) partId }, some id) :=
  rfl

end PartitionAwareInsertDestination

/-- A partition-aware destination with the blocks its workers hold, the seals in progress, the
caller's `partial_blocks`, and the data pipeline messages sent so far, oldest first. -/
structure PoolSystem where
  base : InsertDestination
  destination : PartitionAwareInsertDestination
  /-- Blocks checked out by workers, each with the partition it came from. -/
  checkedOut : List (MutableBlockReference × PartitionId)
  /-- Seals in progress: ids a worker has appended to its partition's done ids and not announced
  yet, each with that worker, which still holds the block's handle. -/
  sealing : List (BlockId × ClientId)
  partialBlocks : List MutableBlockReference
  sent : List SentMessage
deriving DecidableEq, Repr

/-- What a worker or the operator does to the system. -/
inductive PoolAction where
  | pool (call : PoolCall)
  | getBlockForInsertionInPartition (partId : PartitionId) (newId : BlockId)
  /-- The part of `returnBlockInPartition` under the partition's mutex. -/
  | returnBlockInPartition (block : MutableBlockReference) (full : Bool) (partId : PartitionId)
      (worker : ClientId)
  /-- The end of a full return, after the mutex is released: `sendBlockFilledMessage(id)` on the
  worker's thread, after which the worker drops the handle. -/
  | sendBlockFilledMessage (id : BlockId) (worker : ClientId)
deriving DecidableEq, Repr

namespace PoolSystem

/-- A destination just constructed for `numPartitions` partitions: one empty vector each. -/
def initial (base : InsertDestination) (numPartitions : Nat) : PoolSystem :=
  { base
    destination := ⟨numPartitions, List.replicate numPartitions [],
      List.replicate numPartitions [], List.replicate numPartitions [], []⟩
    checkedOut := []
    sealing := []
    partialBlocks := []
    sent := [] }

/-- One action, under the mutex of the partition it names, if any. -/
def step (s : PoolSystem) : PoolAction → PoolSystem
  | .pool call =>
    let result := call.apply (s.partialBlocks, s.destination)
    { s with destination := result.2, partialBlocks := result.1 }
  | .getBlockForInsertionInPartition partId newId =>
    let result := s.destination.getBlockForInsertionInPartition partId newId
    { s with destination := result.2, checkedOut := s.checkedOut ++ [(result.1, partId)] }
  | .returnBlockInPartition block full partId worker =>
    let result := s.destination.returnBlockInPartition block full partId
    { s with destination := result.1, checkedOut := s.checkedOut.erase (block, partId),
             sealing := s.sealing ++ result.2.toList.map fun id => (id, worker) }
  | .sendBlockFilledMessage id worker =>
    { s with sealing := s.sealing.erase (id, worker),
             sent := s.sent ++ [s.base.sendBlockFilledMessage worker id] }

/-- The handles in the system of blocks not sealed: pooled, held by workers, or handed to
`partial_blocks`. A block being sealed is counted by its id among the done ids. -/
def handles (s : PoolSystem) : List MutableBlockReference :=
  s.destination.availableBlockRefs.flatten ++ s.checkedOut.map Prod.fst ++ s.partialBlocks

/-- Every block id the system knows of, with multiplicity: those of its handles, the unloaded
ids and the sealed ids. -/
def blocks (s : PoolSystem) : List BlockId :=
  s.handles.filterMap MutableBlockReference.getID? ++ s.destination.availableBlockIds.flatten ++
    s.destination.doneBlockIds.flatten

/-- What the callers and the storage manager promise for an action. An id passed to
`addBlockToPool` is added only once and is not already in the destination, a partition id
names a partition, a new block's id is one no block has, a block is returned to the partition
that supplied it, and a worker announces a seal it has made. -/
def Admissible (s : PoolSystem) : PoolAction → Prop
  | .pool (.addBlockToPool bid partId) => partId < s.destination.numPartitions ∧ bid ∉ s.blocks
  | .pool (.getPartiallyFilledBlocksInPartition partId) => partId < s.destination.numPartitions
  | .pool .getPartiallyFilledBlocks => True
  | .getBlockForInsertionInPartition partId newId =>
    partId < s.destination.numPartitions ∧ newId ∉ s.blocks
  | .returnBlockInPartition block _ partId _ => (block, partId) ∈ s.checkedOut
  | .sendBlockFilledMessage id worker => (id, worker) ∈ s.sealing

instance (s : PoolSystem) (action : PoolAction) : Decidable (s.Admissible action) :=
  match action with
  | .pool (.addBlockToPool bid partId) =>
    inferInstanceAs (Decidable (partId < s.destination.numPartitions ∧ bid ∉ s.blocks))
  | .pool (.getPartiallyFilledBlocksInPartition partId) =>
    inferInstanceAs (Decidable (partId < s.destination.numPartitions))
  | .pool .getPartiallyFilledBlocks => inferInstanceAs (Decidable True)
  | .getBlockForInsertionInPartition partId newId =>
    inferInstanceAs (Decidable (partId < s.destination.numPartitions ∧ newId ∉ s.blocks))
  | .returnBlockInPartition block _ partId _ =>
    inferInstanceAs (Decidable ((block, partId) ∈ s.checkedOut))
  | .sendBlockFilledMessage id worker => inferInstanceAs (Decidable ((id, worker) ∈ s.sealing))

/-- The block ids an action brings into the system: the id passed to `addBlockToPool`, or the
storage manager's new id when a checkout finds its partition with nothing to pop. -/
def introduced (s : PoolSystem) : PoolAction → List BlockId
  | .pool (.addBlockToPool bid _) => [bid]
  | .getBlockForInsertionInPartition partId newId =>
    if s.destination.availableBlockRefs.getD partId [] = [] ∧
        s.destination.availableBlockIds.getD partId [] = [] then [newId] else []
  | _ => []

/-- `introduced`, each id with the partition it is brought into. -/
def introducedAt (s : PoolSystem) : PoolAction → List (BlockId × PartitionId)
  | .pool (.addBlockToPool bid partId) => [(bid, partId)]
  | .getBlockForInsertionInPartition partId newId =>
    if s.destination.availableBlockRefs.getD partId [] = [] ∧
        s.destination.availableBlockIds.getD partId [] = [] then [(newId, partId)] else []
  | _ => []

/-- Block `id` is in partition `p`: in one of the partition's vectors, or held by a worker
that took it from the partition. -/
def PlacedIn (s : PoolSystem) (id : BlockId) (p : PartitionId) : Prop :=
  MutableBlockReference.block id ∈ s.destination.availableBlockRefs.getD p [] ∨
    id ∈ s.destination.availableBlockIds.getD p [] ∨
    id ∈ s.destination.doneBlockIds.getD p [] ∨
    (MutableBlockReference.block id, p) ∈ s.checkedOut

instance (s : PoolSystem) (id : BlockId) (p : PartitionId) : Decidable (s.PlacedIn id p) :=
  inferInstanceAs (Decidable
    (MutableBlockReference.block id ∈ s.destination.availableBlockRefs.getD p [] ∨
      id ∈ s.destination.availableBlockIds.getD p [] ∨
      id ∈ s.destination.doneBlockIds.getD p [] ∨
      (MutableBlockReference.block id, p) ∈ s.checkedOut))

/-- The system after `actions`, one after another. -/
def runActions (s : PoolSystem) (actions : List PoolAction) : PoolSystem :=
  actions.foldl step s

/-- Each action is admissible in the system the actions before it leave. -/
def AdmissibleRun : PoolSystem → List PoolAction → Prop
  | _, [] => True
  | s, action :: actions => s.Admissible action ∧ AdmissibleRun (s.step action) actions

instance decidableAdmissibleRun :
    (s : PoolSystem) → (actions : List PoolAction) → Decidable (AdmissibleRun s actions)
  | _, [] => inferInstanceAs (Decidable True)
  | s, action :: actions =>
    have := decidableAdmissibleRun (s.step action) actions
    inferInstanceAs (Decidable (s.Admissible action ∧ AdmissibleRun (s.step action) actions))

/-- The block ids a run brings into the system, in order. -/
def introducedBy : PoolSystem → List PoolAction → List BlockId
  | _, [] => []
  | s, action :: actions => s.introduced action ++ introducedBy (s.step action) actions

/-- `introducedBy`, each id with the partition it is brought into. -/
def introducedAtBy : PoolSystem → List PoolAction → List (BlockId × PartitionId)
  | _, [] => []
  | s, action :: actions => s.introducedAt action ++ introducedAtBy (s.step action) actions

end PoolSystem

end QuickstepStorage
