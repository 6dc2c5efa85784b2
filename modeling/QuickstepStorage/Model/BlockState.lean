import QuickstepStorage.Model.Lifecycle

/-! # The per-block state machine

Seen from one destination, a block moves `AVAILABLE → CHECKED_OUT → (AVAILABLE | DONE)`, and
`DONE` is terminal. The block pool adds the ids the destination knows but has not loaded, and
`getPartiallyFilledBlocks` hands the available blocks over to the caller for good. This is the
abstract model of the lifecycle; `PoolSystem.status` reads each block's state off a system.
-/

namespace QuickstepStorage

/-- Where a block is, from its destination's point of view. -/
inductive BlockState where
  /-- Known to the destination (`available_block_ids_`) but not loaded. -/
  | unloaded
  /-- Loaded and in its partition's pool (`available_block_refs_`). -/
  | available
  /-- Held by a worker for insertion. -/
  | checkedOut
  /-- Handed over to the caller's `partial_blocks`. -/
  | handedOut
  /-- Sealed as full (`done_block_ids_`). -/
  | done
deriving DecidableEq, Repr

namespace BlockState

/-- The moves a block may make in one step; `none` is a block the destination does not hold. -/
def transitions : List (Option BlockState × Option BlockState) :=
  [(none, some unloaded), (none, some checkedOut), (some unloaded, some checkedOut),
    (some available, some checkedOut), (some checkedOut, some available),
    (some checkedOut, some done), (some available, some handedOut)]

/-- Whether a block may move from `before` to `after` in one step. -/
def Transition (before after : Option BlockState) : Prop := (before, after) ∈ transitions

instance (before after : Option BlockState) : Decidable (Transition before after) :=
  inferInstanceAs (Decidable ((before, after) ∈ transitions))

end BlockState

/-- Where block `id` is in the system, or `none` if the system does not hold it. -/
def PoolSystem.status (s : PoolSystem) (id : BlockId) : Option BlockState :=
  if id ∈ s.destination.doneBlockIds.flatten then some .done
  else if MutableBlockReference.block id ∈ s.checkedOut.map Prod.fst then some .checkedOut
  else if MutableBlockReference.block id ∈ s.destination.availableBlockRefs.flatten then
    some .available
  else if MutableBlockReference.block id ∈ s.partialBlocks then some .handedOut
  else if id ∈ s.destination.availableBlockIds.flatten then some .unloaded
  else none

end QuickstepStorage
