import QuickstepStorage.Model.Lifecycle
import Mathlib.Data.List.Nodup
import Mathlib.Data.List.GetD

/-! # Invariants of the block lifecycle

From construction, through any admissible interleaving of pool calls, checkouts, returns and
the messages that end seals, every block is in one place only (its partition's pool, a worker,
the caller's `partial_blocks`, the unloaded ids or the sealed ids) and appears there once, no
handle is null, and each sealed block has exactly one message to the Foreman, sent or still to be
sent by the worker that sealed it. No order of the messages across workers is claimed. Each step
moves handles and ids between those places or adds the fresh ids it introduces
(`blocks_step_perm`, checked by counting occurrences); uniqueness follows from that once.
-/

namespace QuickstepStorage

/-- Replacing one vector of a vector of vectors changes their concatenation by that vector. -/
private theorem flatten_modify_perm {α : Type} (pools : List (List α)) (f : List α → List α)
    {p : Nat} (inRange : p < pools.length) :
    ((pools.modify f p).flatten ++ pools.getD p []).Perm
      (f (pools.getD p []) ++ pools.flatten) := by
  induction pools generalizing p with
  | nil => cases inRange
  | cons pool pools ih =>
    cases p with
    | zero => simpa using List.perm_append_comm.append_left (f pool)
    | succ p =>
      have rest := ih (p := p) (by simpa using inRange)
      simp only [List.modify_succ_cons, List.flatten_cons, List.getD_cons_succ, List.append_assoc]
      exact (rest.append_left pool).trans (List.perm_append_comm_assoc _ _ _)

/-- Appending to one vector adds exactly the appended elements to the concatenation. -/
theorem flatten_modify_append_perm {α : Type} [DecidableEq α] (pools : List (List α))
    (extra : List α) {p : Nat} (inRange : p < pools.length) :
    (pools.modify (· ++ extra) p).flatten.Perm (extra ++ pools.flatten) := by
  have moved := flatten_modify_perm pools (· ++ extra) inRange
  rw [List.perm_iff_count] at moved ⊢
  intro x
  have := moved x
  simp only [List.count_append] at this ⊢
  omega

/-- Popping the last element of one vector removes exactly it from the concatenation. -/
theorem flatten_modify_dropLast_perm {α : Type} [DecidableEq α] (pools : List (List α))
    {p : Nat} {last : α} (popped : (pools.getD p []).getLast? = some last) :
    ((pools.modify List.dropLast p).flatten ++ [last]).Perm pools.flatten := by
  have inRange : p < pools.length := by
    by_contra outside
    rw [List.getD_eq_default _ _ (Nat.le_of_not_lt outside)] at popped
    cases popped
  have moved := flatten_modify_perm pools List.dropLast inRange
  have split := List.dropLast_append_getLast? last popped
  rw [List.perm_iff_count] at moved ⊢
  intro x
  have := moved x
  have sizes := congrArg (List.count x) split
  simp only [List.count_append] at this sizes ⊢
  omega

namespace PartitionAwareInsertDestination

/-- The three ways a checkout goes: a loaded block popped, else an unloaded block popped and
loaded, else a new block. -/
theorem getBlockForInsertionInPartition_cases (d : PartitionAwareInsertDestination)
    (partId : PartitionId) (newId : BlockId) :
    (∃ block, (d.availableBlockRefs.getD partId []).getLast? = some block ∧
      d.getBlockForInsertionInPartition partId newId =
        (block,
          { d with availableBlockRefs := d.availableBlockRefs.modify List.dropLast partId })) ∨
    (d.availableBlockRefs.getD partId [] = [] ∧
      ∃ id, (d.availableBlockIds.getD partId []).getLast? = some id ∧
        d.getBlockForInsertionInPartition partId newId =
          (.block id,
            { d with availableBlockIds := d.availableBlockIds.modify List.dropLast partId })) ∨
    (d.availableBlockRefs.getD partId [] = [] ∧ d.availableBlockIds.getD partId [] = [] ∧
      d.getBlockForInsertionInPartition partId newId = (.block newId, d)) := by
  unfold getBlockForInsertionInPartition
  split
  · exact .inl ⟨_, ‹_›, rfl⟩
  · rename_i noLoaded
    split
    · exact .inr (.inl ⟨List.getLast?_eq_none_iff.mp noLoaded, _, ‹_›, rfl⟩)
    · rename_i noUnloaded
      exact .inr (.inr ⟨List.getLast?_eq_none_iff.mp noLoaded,
        List.getLast?_eq_none_iff.mp noUnloaded, rfl⟩)

@[simp] theorem getBlockForInsertionInPartition_numPartitions
    (d : PartitionAwareInsertDestination) (partId : PartitionId) (newId : BlockId) :
    (d.getBlockForInsertionInPartition partId newId).2.numPartitions = d.numPartitions := by
  rcases d.getBlockForInsertionInPartition_cases partId newId with
    ⟨_, _, checkout⟩ | ⟨_, _, _, checkout⟩ | ⟨_, _, checkout⟩ <;> simp [checkout]

@[simp] theorem getBlockForInsertionInPartition_doneBlockIds
    (d : PartitionAwareInsertDestination) (partId : PartitionId) (newId : BlockId) :
    (d.getBlockForInsertionInPartition partId newId).2.doneBlockIds = d.doneBlockIds := by
  rcases d.getBlockForInsertionInPartition_cases partId newId with
    ⟨_, _, checkout⟩ | ⟨_, _, _, checkout⟩ | ⟨_, _, checkout⟩ <;> simp [checkout]

@[simp] theorem getBlockForInsertionInPartition_availableBlockRefs_length
    (d : PartitionAwareInsertDestination) (partId : PartitionId) (newId : BlockId) :
    (d.getBlockForInsertionInPartition partId newId).2.availableBlockRefs.length =
      d.availableBlockRefs.length := by
  rcases d.getBlockForInsertionInPartition_cases partId newId with
    ⟨_, _, checkout⟩ | ⟨_, _, _, checkout⟩ | ⟨_, _, checkout⟩ <;> simp [checkout]

@[simp] theorem getBlockForInsertionInPartition_availableBlockIds_length
    (d : PartitionAwareInsertDestination) (partId : PartitionId) (newId : BlockId) :
    (d.getBlockForInsertionInPartition partId newId).2.availableBlockIds.length =
      d.availableBlockIds.length := by
  rcases d.getBlockForInsertionInPartition_cases partId newId with
    ⟨_, _, checkout⟩ | ⟨_, _, _, checkout⟩ | ⟨_, _, checkout⟩ <;> simp [checkout]

end PartitionAwareInsertDestination

namespace PoolSystem

open PartitionAwareInsertDestination

/-- Each of the three vectors has one entry per partition. -/
def Sized (d : PartitionAwareInsertDestination) : Prop :=
  d.availableBlockRefs.length = d.numPartitions ∧ d.availableBlockIds.length = d.numPartitions ∧
    d.doneBlockIds.length = d.numPartitions

/-- The ids of the blocks announced so far, in the order of the messages to the Foreman. -/
def sentIds (s : PoolSystem) : List BlockId := s.sent.map (·.message.blockId)

/-- The invariants of the block lifecycle, spec invariants 1, 2, 4 and 5 among them. -/
structure Invariant (s : PoolSystem) : Prop where
  sized : Sized s.destination
  /-- Every held block was taken from an existing partition. -/
  checkedOutInRange : ∀ held ∈ s.checkedOut, held.2 < s.destination.numPartitions
  /-- No handle in the system is the null handle. -/
  nonNull : MutableBlockReference.null ∉ s.handles
  /-- Each block is in one place only (pooled, held, handed out, unloaded or sealed), once. -/
  unique : s.blocks.Nodup
  /-- Each sealed block has one message to the Foreman, sent or still to be sent. -/
  notified : (s.sentIds ++ s.sealing.map Prod.fst).Perm s.destination.doneBlockIds.flatten
  /-- Every message is one `sendBlockFilledMessage` sends for this destination. -/
  fromDestination :
    ∀ m ∈ s.sent, ∃ worker, m = s.base.sendBlockFilledMessage worker m.message.blockId

theorem Invariant.initial (base : InsertDestination) (numPartitions : Nat) :
    (PoolSystem.initial base numPartitions).Invariant where
  sized := by simp [Sized, PoolSystem.initial]
  checkedOutInRange := by simp [PoolSystem.initial]
  nonNull := by simp [handles, PoolSystem.initial]
  unique := by simp [blocks, handles, PoolSystem.initial]
  notified := by simp [sentIds, PoolSystem.initial]
  fromDestination := by simp [PoolSystem.initial]

/-- No worker holds the null handle. -/
theorem Invariant.null_not_checkedOut {s : PoolSystem} (inv : s.Invariant) (p : PartitionId) :
    (MutableBlockReference.null, p) ∉ s.checkedOut := fun held =>
  inv.nonNull (List.mem_append_left _ (List.mem_append_right _ (List.mem_map_of_mem Prod.fst held)))

/-- A checkout as one update of the system: the destination and the worker's new block. -/
theorem step_getBlockForInsertionInPartition_eq (s : PoolSystem) {partId : PartitionId}
    {newId : BlockId} {block : MutableBlockReference} {d : PartitionAwareInsertDestination}
    (checkout : s.destination.getBlockForInsertionInPartition partId newId = (block, d)) :
    s.step (.getBlockForInsertionInPartition partId newId) =
      { s with destination := d, checkedOut := s.checkedOut ++ [(block, partId)] } := by
  simp only [step, checkout]

/-- A return as one update of the system: the destination, the worker's blocks and its seal in
progress. -/
theorem step_returnBlockInPartition_eq (s : PoolSystem) {block : MutableBlockReference}
    {full : Bool} {partId : PartitionId} {worker : ClientId} {d : PartitionAwareInsertDestination}
    {sealed : Option BlockId}
    (returned : s.destination.returnBlockInPartition block full partId = (d, sealed)) :
    s.step (.returnBlockInPartition block full partId worker) =
      { s with destination := d, checkedOut := s.checkedOut.erase (block, partId),
               sealing := s.sealing ++ sealed.toList.map fun id => (id, worker) } := by
  simp only [step, returned]

/-- A pool call moves handles within the system. -/
private theorem handles_step_pool (s : PoolSystem) (call : PoolCall) :
    (s.step (.pool call)).handles.Perm s.handles := by
  obtain ⟨handed, appended, moved⟩ := call.conserves_apply (s.partialBlocks, s.destination)
  rw [List.perm_iff_count] at moved ⊢
  intro h
  have := moved h
  simp only [handles, step, appended, List.count_append] at this ⊢
  omega

/-- A checkout that loads or creates block `id` adds its handle to those in the system. -/
private theorem handles_step_checkOut (s : PoolSystem) {partId : PartitionId} {newId id : BlockId}
    {d : PartitionAwareInsertDestination}
    (checkout : s.destination.getBlockForInsertionInPartition partId newId = (.block id, d))
    (refs : d.availableBlockRefs = s.destination.availableBlockRefs) :
    (s.step (.getBlockForInsertionInPartition partId newId)).handles.Perm
      (.block id :: s.handles) := by
  refine List.perm_iff_count.mpr fun h => ?_
  simp only [step_getBlockForInsertionInPartition_eq s checkout, handles, refs, List.map_append,
    List.map_cons, List.map_nil, List.count_append, List.count_cons, List.count_nil]
  omega

/-- A checkout that pops a loaded block only moves it from its pool to the worker. -/
private theorem handles_step_popLoaded (s : PoolSystem) {partId : PartitionId} {newId : BlockId}
    {block : MutableBlockReference} {d : PartitionAwareInsertDestination}
    (popped : (s.destination.availableBlockRefs.getD partId []).getLast? = some block)
    (checkout : s.destination.getBlockForInsertionInPartition partId newId = (block, d))
    (refs : d.availableBlockRefs = s.destination.availableBlockRefs.modify List.dropLast partId) :
    (s.step (.getBlockForInsertionInPartition partId newId)).handles.Perm s.handles := by
  refine List.perm_iff_count.mpr fun h => ?_
  have moved := (flatten_modify_dropLast_perm _ popped).count_eq h
  simp only [step_getBlockForInsertionInPartition_eq s checkout, handles, refs, List.map_append,
    List.map_cons, List.map_nil, List.count_append] at moved ⊢
  omega

/-- Returning a held block takes exactly its handle out of the workers' handles. -/
theorem count_checkedOut_erase {checkedOut : List (MutableBlockReference × PartitionId)}
    {block : MutableBlockReference} {partId : PartitionId} (member : (block, partId) ∈ checkedOut)
    (h : MutableBlockReference) :
    ((checkedOut.erase (block, partId)).map Prod.fst).count h + [block].count h =
      (checkedOut.map Prod.fst).count h := by
  obtain ⟨front, back, -, split, erased⟩ := List.exists_erase_eq member
  rw [erased, split]
  simp only [List.map_append, List.map_cons, List.count_append, List.count_cons, List.count_nil]
  omega

/-- A block returned not full goes from its worker back onto its partition's pool. -/
private theorem handles_step_repool {s : PoolSystem} (inv : s.Invariant)
    {block : MutableBlockReference} {partId : PartitionId} (worker : ClientId)
    (member : (block, partId) ∈ s.checkedOut) :
    (s.step (.returnBlockInPartition block false partId worker)).handles.Perm s.handles := by
  have pooled := (flatten_modify_append_perm s.destination.availableBlockRefs [block]
    (by rw [inv.sized.1]; exact inv.checkedOutInRange _ member)).count_eq
  refine List.perm_iff_count.mpr fun h => ?_
  have returned := pooled h
  have released := count_checkedOut_erase member h
  simp only [step_returnBlockInPartition_eq s (returnBlockInPartition_false ..), handles,
    List.count_append] at returned ⊢
  omega

/-- A block returned full leaves the handles of unsealed blocks: its id is among the done ids. -/
private theorem handles_step_seal (s : PoolSystem) {id : BlockId} {partId : PartitionId}
    (worker : ClientId) (member : (MutableBlockReference.block id, partId) ∈ s.checkedOut) :
    ((s.step (.returnBlockInPartition (.block id) true partId worker)).handles ++
      [MutableBlockReference.block id]).Perm s.handles := by
  refine List.perm_iff_count.mpr fun h => ?_
  have released := count_checkedOut_erase member h
  simp only [step_returnBlockInPartition_eq s (returnBlockInPartition_true ..), handles,
    List.count_append]
  omega

/-- Moving handles around, with the unloaded and sealed ids unchanged, keeps the block ids. -/
private theorem blocks_perm_of_handles_perm {s s' : PoolSystem}
    (moved : s'.handles.Perm s.handles)
    (ids : s'.destination.availableBlockIds = s.destination.availableBlockIds)
    (done : s'.destination.doneBlockIds = s.destination.doneBlockIds) :
    s'.blocks.Perm s.blocks := by
  simp only [blocks, ids, done]
  exact ((moved.filterMap _).append_right _).append_right _

private theorem blocks_step_pool {s : PoolSystem} (inv : s.Invariant) (call : PoolCall)
    (admissible : s.Admissible (.pool call)) :
    (s.step (.pool call)).blocks.Perm (s.introduced (.pool call) ++ s.blocks) := by
  have moved := handles_step_pool s call
  cases call with
  | addBlockToPool bid partId =>
    have added := flatten_modify_append_perm s.destination.availableBlockIds [bid]
      (by rw [inv.sized.2.1]; exact admissible.1)
    refine List.perm_iff_count.mpr fun x => ?_
    have handlesCount := (moved.filterMap MutableBlockReference.getID?).count_eq x
    have idsCount := added.count_eq x
    simp only [blocks, step, introduced, PoolCall.apply, addBlockToPool_availableBlockIds,
      addBlockToPool_doneBlockIds, List.count_append, List.count_cons, List.count_nil]
      at handlesCount idsCount ⊢
    omega
  | getPartiallyFilledBlocksInPartition _ | getPartiallyFilledBlocks =>
    refine blocks_perm_of_handles_perm moved ?_ (by simp [step])
    simp [step, PoolCall.apply, getPartiallyFilledBlocksInPartition_eq, getPartiallyFilledBlocks_eq]

private theorem blocks_step_getBlockForInsertionInPartition (s : PoolSystem)
    (partId : PartitionId) (newId : BlockId) :
    (s.step (.getBlockForInsertionInPartition partId newId)).blocks.Perm
      (s.introduced (.getBlockForInsertionInPartition partId newId) ++ s.blocks) := by
  rcases s.destination.getBlockForInsertionInPartition_cases partId newId with
    ⟨block, popped, checkout⟩ | ⟨noLoaded, id, popped, checkout⟩ |
      ⟨noLoaded, noUnloaded, checkout⟩
  -- a loaded block moves from its pool to the worker
  · have loaded : s.destination.availableBlockRefs.getD partId [] ≠ [] := by
      rintro empty
      rw [empty] at popped
      cases popped
    simp only [introduced, loaded, false_and, if_false, List.nil_append]
    exact blocks_perm_of_handles_perm (handles_step_popLoaded s popped checkout rfl)
      (by simp [step_getBlockForInsertionInPartition_eq s checkout]) (by simp [step])
  -- an unloaded block is loaded for the worker
  · have unloaded : s.destination.availableBlockIds.getD partId [] ≠ [] := by
      rintro empty
      rw [empty] at popped
      cases popped
    simp only [introduced, unloaded, and_false, if_false, List.nil_append]
    refine List.perm_iff_count.mpr fun x => ?_
    have handlesCount := ((handles_step_checkOut s checkout rfl).filterMap
      MutableBlockReference.getID?).count_eq x
    have idsCount := (flatten_modify_dropLast_perm _ popped).count_eq x
    simp only [step_getBlockForInsertionInPartition_eq s checkout, blocks, List.filterMap_cons,
      MutableBlockReference.getID?, List.count_append, List.count_cons, List.count_nil]
      at handlesCount idsCount ⊢
    omega
  -- a new block is created for the worker
  · simp only [introduced, noLoaded, noUnloaded, and_self, if_true]
    refine List.perm_iff_count.mpr fun x => ?_
    have handlesCount := ((handles_step_checkOut s checkout rfl).filterMap
      MutableBlockReference.getID?).count_eq x
    simp only [step_getBlockForInsertionInPartition_eq s checkout, blocks, List.filterMap_cons,
      MutableBlockReference.getID?, List.count_append, List.count_cons, List.count_nil]
      at handlesCount ⊢
    omega

private theorem blocks_step_returnBlockInPartition {s : PoolSystem} (inv : s.Invariant)
    {block : MutableBlockReference} {full : Bool} {partId : PartitionId} (worker : ClientId)
    (member : (block, partId) ∈ s.checkedOut) :
    (s.step (.returnBlockInPartition block full partId worker)).blocks.Perm s.blocks := by
  cases full with
  | false => exact blocks_perm_of_handles_perm (handles_step_repool inv worker member) rfl rfl
  | true =>
    cases block with
    | null => exact absurd member (inv.null_not_checkedOut partId)
    | block id =>
      have sealed := flatten_modify_append_perm s.destination.doneBlockIds [id]
        (by rw [inv.sized.2.2]; exact inv.checkedOutInRange _ member)
      have moved := (handles_step_seal s worker member).filterMap MutableBlockReference.getID?
      refine List.perm_iff_count.mpr fun x => ?_
      have handlesCount := moved.count_eq x
      have doneCount := sealed.count_eq x
      simp only [step_returnBlockInPartition_eq s (returnBlockInPartition_true ..), blocks,
        List.filterMap_append, List.filterMap_cons, List.filterMap_nil,
        MutableBlockReference.getID?, List.count_append] at handlesCount doneCount ⊢
      omega

/-- An admissible step only moves block ids between the places a block can be, and adds the
ids it introduces. -/
theorem blocks_step_perm {s : PoolSystem} (inv : s.Invariant) {action : PoolAction}
    (admissible : s.Admissible action) :
    (s.step action).blocks.Perm (s.introduced action ++ s.blocks) := by
  cases action with
  | pool call => exact blocks_step_pool inv call admissible
  | getBlockForInsertionInPartition partId newId =>
    exact blocks_step_getBlockForInsertionInPartition s partId newId
  | returnBlockInPartition block full partId worker =>
    exact blocks_step_returnBlockInPartition inv worker admissible
  | sendBlockFilledMessage => exact List.Perm.refl _

/-- What an admissible action introduces is at most one id, which the system does not have. -/
theorem nodup_introduced_append {s : PoolSystem} {action : PoolAction}
    (admissible : s.Admissible action) (unique : s.blocks.Nodup) :
    (s.introduced action ++ s.blocks).Nodup := by
  cases action with
  | pool call =>
    cases call with
    | addBlockToPool bid partId => exact List.nodup_cons.mpr ⟨admissible.2, unique⟩
    | _ => exact unique
  | getBlockForInsertionInPartition partId newId =>
    simp only [introduced]
    split
    · exact List.nodup_cons.mpr ⟨admissible.2, unique⟩
    · exact unique
  | returnBlockInPartition | sendBlockFilledMessage => exact unique

private theorem Invariant.step_unique {s : PoolSystem} (inv : s.Invariant) {action : PoolAction}
    (admissible : s.Admissible action) : (s.step action).blocks.Nodup :=
  (blocks_step_perm inv admissible).nodup_iff.mpr (nodup_introduced_append admissible inv.unique)

/-- The invariant carries over to a system that seals nothing, keeps each vector's size and
holds blocks of existing partitions only, if no handle is null and no block id repeats. -/
private theorem Invariant.of_unsealed {s s' : PoolSystem} (inv : s.Invariant)
    (base : s'.base = s.base) (sent : s'.sent = s.sent) (sealing : s'.sealing = s.sealing)
    (done : s'.destination.doneBlockIds = s.destination.doneBlockIds)
    (sized : Sized s'.destination)
    (inRange : ∀ held ∈ s'.checkedOut, held.2 < s'.destination.numPartitions)
    (nonNull : MutableBlockReference.null ∉ s'.handles) (unique : s'.blocks.Nodup) :
    s'.Invariant where
  sized := sized
  checkedOutInRange := inRange
  nonNull := nonNull
  unique := unique
  notified := by simpa only [sentIds, sent, sealing, done] using inv.notified
  fromDestination := by simpa only [sent, base] using inv.fromDestination

/-- The invariant carries over to a system in which `worker` seals block `id` of partition `p`
(its id joins `p`'s done ids and the worker's seals in progress) and which keeps each vector's
size, holds blocks of existing partitions only, has no null handle and repeats no block id. -/
private theorem Invariant.of_sealed {s s' : PoolSystem} (inv : s.Invariant) {id : BlockId}
    {p : PartitionId} {worker : ClientId} (inRange : p < s.destination.doneBlockIds.length)
    (base : s'.base = s.base) (sent : s'.sent = s.sent)
    (sealing : s'.sealing = s.sealing ++ [(id, worker)])
    (done : s'.destination.doneBlockIds = s.destination.doneBlockIds.modify (· ++ [id]) p)
    (sized : Sized s'.destination)
    (checkedOutInRange : ∀ held ∈ s'.checkedOut, held.2 < s'.destination.numPartitions)
    (nonNull : MutableBlockReference.null ∉ s'.handles) (unique : s'.blocks.Nodup) :
    s'.Invariant where
  sized := sized
  checkedOutInRange := checkedOutInRange
  nonNull := nonNull
  unique := unique
  notified := by
    have sealed := flatten_modify_append_perm s.destination.doneBlockIds [id] inRange
    refine List.perm_iff_count.mpr fun x => ?_
    have noticeCount := inv.notified.count_eq x
    have doneCount := sealed.count_eq x
    simp only [sentIds, sent, sealing, done, List.map_append, List.map_cons, List.map_nil,
      List.count_append] at noticeCount doneCount ⊢
    omega
  fromDestination := by simpa only [sent, base] using inv.fromDestination

theorem Invariant.step_pool {s : PoolSystem} (inv : s.Invariant) (call : PoolCall)
    (admissible : s.Admissible (.pool call)) : (s.step (.pool call)).Invariant :=
  inv.of_unsealed rfl rfl rfl (by simp [step]) (by simpa [Sized, step] using inv.sized)
    (by simpa [step] using inv.checkedOutInRange)
    (fun null => inv.nonNull ((handles_step_pool s call).subset null))
    (inv.step_unique admissible)

theorem Invariant.step_getBlockForInsertionInPartition {s : PoolSystem} (inv : s.Invariant)
    {partId : PartitionId} {newId : BlockId}
    (admissible : s.Admissible (.getBlockForInsertionInPartition partId newId)) :
    (s.step (.getBlockForInsertionInPartition partId newId)).Invariant := by
  refine inv.of_unsealed rfl rfl rfl (by simp [step]) (by simpa [Sized, step] using inv.sized)
    (fun held member => ?_) ?_ (inv.step_unique admissible)
  · simp only [step, List.mem_append, List.mem_singleton,
      getBlockForInsertionInPartition_numPartitions] at member ⊢
    rcases member with old | rfl
    · exact inv.checkedOutInRange held old
    · exact admissible.1
  · rcases s.destination.getBlockForInsertionInPartition_cases partId newId with
      ⟨_, popped, checkout⟩ | ⟨-, _, -, checkout⟩ | ⟨-, -, checkout⟩
    · exact fun null => inv.nonNull ((handles_step_popLoaded s popped checkout rfl).subset null)
    all_goals exact fun null =>
      inv.nonNull (by simpa using (handles_step_checkOut s checkout rfl).subset null)

theorem Invariant.step_returnBlockInPartition {s : PoolSystem} (inv : s.Invariant)
    {block : MutableBlockReference} {full : Bool} {partId : PartitionId} {worker : ClientId}
    (admissible : s.Admissible (.returnBlockInPartition block full partId worker)) :
    (s.step (.returnBlockInPartition block full partId worker)).Invariant := by
  have member : (block, partId) ∈ s.checkedOut := admissible
  obtain ⟨refsSized, idsSized, doneSized⟩ := inv.sized
  have inRange : partId < s.destination.numPartitions := inv.checkedOutInRange _ member
  have range :
      ∀ other ∈ s.checkedOut.erase (block, partId), other.2 < s.destination.numPartitions :=
    fun other kept => inv.checkedOutInRange other (List.erase_subset _ _ kept)
  cases full with
  | false =>
    -- the block goes back on its partition's loaded blocks
    exact inv.of_unsealed rfl rfl (List.append_nil _) rfl
      (by simp [Sized, step, refsSized, idsSized, doneSized]) range
      (fun null => inv.nonNull ((handles_step_repool inv worker member).subset null))
      (inv.step_unique admissible)
  | true =>
    cases block with
    | null => exact absurd member (inv.null_not_checkedOut partId)
    | block id =>
      -- the block is sealed: its id joins its partition's done ids and the worker's seals
      exact inv.of_sealed (by rw [doneSized]; exact inRange) rfl rfl rfl rfl
        (by simp [Sized, step, refsSized, idsSized, doneSized]) range
        (fun null => inv.nonNull
          ((handles_step_seal s worker member).subset (List.mem_append_left _ null)))
        (inv.step_unique admissible)

/-- A worker announcing its seal: the block's id moves from the seals in progress to the
messages the Foreman has been sent. -/
theorem Invariant.step_sendBlockFilledMessage {s : PoolSystem} (inv : s.Invariant) {id : BlockId}
    {worker : ClientId} (admissible : s.Admissible (.sendBlockFilledMessage id worker)) :
    (s.step (.sendBlockFilledMessage id worker)).Invariant where
  sized := inv.sized
  checkedOutInRange := inv.checkedOutInRange
  nonNull := inv.nonNull
  unique := inv.unique
  notified := by
    obtain ⟨front, back, -, split, erased⟩ :=
      List.exists_erase_eq (show (id, worker) ∈ s.sealing from admissible)
    refine List.Perm.trans ?_ inv.notified
    simp only [sentIds, step, InsertDestination.sendBlockFilledMessage]
    rw [erased, split]
    simp only [List.map_append, List.map_cons, List.map_nil, List.append_assoc,
      List.singleton_append]
    exact List.perm_middle.symm.append_left _
  fromDestination m member := by
    rcases List.mem_append.mp member with old | new
    · exact inv.fromDestination m old
    · obtain rfl := List.mem_singleton.mp new
      exact ⟨worker, rfl⟩

theorem Invariant.step {s : PoolSystem} (inv : s.Invariant) {action : PoolAction}
    (admissible : s.Admissible action) : (s.step action).Invariant := by
  cases action with
  | pool call => exact inv.step_pool call admissible
  | getBlockForInsertionInPartition partId newId =>
    exact inv.step_getBlockForInsertionInPartition admissible
  | returnBlockInPartition block full partId worker =>
    exact inv.step_returnBlockInPartition admissible
  | sendBlockFilledMessage id worker => exact inv.step_sendBlockFilledMessage admissible

@[simp] theorem runActions_nil (s : PoolSystem) : s.runActions [] = s := rfl

@[simp] theorem runActions_cons (s : PoolSystem) (action : PoolAction)
    (actions : List PoolAction) :
    s.runActions (action :: actions) = (s.step action).runActions actions := rfl

/-- Every system along an admissible run keeps the lifecycle invariants. -/
theorem Invariant.runActions {s : PoolSystem} (inv : s.Invariant) {actions : List PoolAction}
    (admissible : AdmissibleRun s actions) : (s.runActions actions).Invariant := by
  induction actions generalizing s with
  | nil => exact inv
  | cons action actions ih => exact ih (inv.step admissible.1) admissible.2

/-- Sealed blocks stay sealed: no action removes or reorders a partition's done ids. -/
theorem doneBlockIds_prefix_step (s : PoolSystem) (action : PoolAction) (p : PartitionId) :
    s.destination.doneBlockIds.getD p [] <+:
      (s.step action).destination.doneBlockIds.getD p [] := by
  rcases action with call | ⟨partId, newId⟩ | ⟨block, full, partId, worker⟩ | ⟨id, worker⟩
  · simp [step]
  · simp [step]
  · cases full
    · simp [step]
    · cases block
      · simp [step, returnBlockInPartition, MutableBlockReference.getID?]
      · simp only [step_returnBlockInPartition_eq s (returnBlockInPartition_true ..),
          List.getD_eq_getElem?_getD, List.getElem?_modify]
        cases s.destination.doneBlockIds[p]? <;> simp
        split <;> simp
  · simp [step]

end PoolSystem

end QuickstepStorage
