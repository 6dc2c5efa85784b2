import QuickstepStorage.Model.BlockState
import QuickstepStorage.Pool.Flush
import Mathlib.Data.List.Chain

/-! # The system refines the per-block state machine

Counting where a block occurs (`PoolSystem.occurrences`) turns every step into a move of the
block's occurrences between two states the machine connects, or into the arrival of a block the
system did not hold. The lifecycle invariant keeps each block in one place, once, so its state
either stays or makes one move of the machine, and along a run its states form a chain of such
single moves.
-/

namespace QuickstepStorage

namespace BlockState

/-- All of a block's occurrences. -/
def total (f : BlockState → Nat) : Nat :=
  f unloaded + f available + f checkedOut + f handedOut + f done

/-- The state of a block from how often it occurs in each state, read in `status`'s order. -/
def ofOccurrences (f : BlockState → Nat) : Option BlockState :=
  if 0 < f done then some done
  else if 0 < f checkedOut then some checkedOut
  else if 0 < f available then some available
  else if 0 < f handedOut then some handedOut
  else if 0 < f unloaded then some unloaded
  else none

/-- What one step does to a block's occurrences: it moves `k` of them from `P` to `Q`, or it
brings `k` in at `Q` for a block the system did not hold. -/
def Moves (f f' : BlockState → Nat) : Prop :=
  (∃ P Q k, Transition (some P) (some Q) ∧
    ∀ R, f' R + (if R = P then k else 0) = f R + (if R = Q then k else 0)) ∨
  (∃ Q k, Transition none (some Q) ∧ (0 < k → ∀ R, f R = 0) ∧
    ∀ R, f' R = f R + (if R = Q then k else 0))

/-- A step that moves nothing. -/
theorem Moves.rfl (f : BlockState → Nat) : Moves f f :=
  .inl ⟨available, handedOut, 0, by decide, fun R => by simp⟩

private theorem add_le_total (f : BlockState → Nat) {R R' : BlockState} (distinct : R ≠ R') :
    f R + f R' ≤ total f := by
  cases R <;> cases R' <;> simp only [total] <;> first | omega | exact absurd rfl distinct

theorem ofOccurrences_eq_some {f : BlockState → Nat} {R : BlockState} (pos : 0 < f R)
    (others : ∀ R', R' ≠ R → f R' = 0) : ofOccurrences f = some R := by
  cases R <;> simp [ofOccurrences, pos, others]

theorem ofOccurrences_eq_none {f : BlockState → Nat} (zero : ∀ R, f R = 0) :
    ofOccurrences f = none := by
  simp [ofOccurrences, zero]

private theorem ne_of_transition {P Q : BlockState} (allowed : Transition (some P) (some Q)) :
    P ≠ Q := by
  rintro rfl
  cases P <;> simp [Transition, transitions] at allowed

/-- A block that occurs at most once keeps its state or makes one move of the machine. -/
theorem ofOccurrences_of_moves {f f' : BlockState → Nat} (moves : Moves f f')
    (single : total f ≤ 1) :
    ofOccurrences f' = ofOccurrences f ∨ Transition (ofOccurrences f) (ofOccurrences f') := by
  rcases moves with ⟨P, Q, k, allowed, move⟩ | ⟨Q, k, allowed, fresh, add⟩
  · rcases Nat.eq_zero_or_pos k with rfl | moved
    · exact .inl (congrArg ofOccurrences (funext fun R => by simpa using move R))
    have distinct := ne_of_transition allowed
    have atP := move P
    have atQ := move Q
    rw [if_pos rfl, if_neg distinct] at atP
    rw [if_neg (Ne.symm distinct), if_pos rfl] at atQ
    have sourceBound := add_le_total f distinct
    have before : ∀ R, R ≠ P → f R = 0 := fun R other => by
      have := add_le_total f other
      omega
    have after : ∀ R, R ≠ Q → f' R = 0 := fun R other => by
      by_cases source : R = P
      · subst source
        omega
      · have := move R
        rw [if_neg source, if_neg other, before R source] at this
        omega
    rw [ofOccurrences_eq_some (by omega) before, ofOccurrences_eq_some (by omega) after]
    exact .inr allowed
  · rcases Nat.eq_zero_or_pos k with rfl | added
    · exact .inl (congrArg ofOccurrences (funext fun R => by simpa using add R))
    have after : ∀ R, R ≠ Q → f' R = 0 := fun R other => by
      rw [add R, if_neg other, fresh added R]
    rw [ofOccurrences_eq_none (fresh added),
      ofOccurrences_eq_some (by rw [add Q, if_pos rfl]; omega) after]
    exact .inr allowed

end BlockState

namespace PoolSystem

open BlockState PartitionAwareInsertDestination

/-- How often block `id` occurs in each place of the system. -/
def occurrences (s : PoolSystem) (id : BlockId) : BlockState → Nat
  | .unloaded => s.destination.availableBlockIds.flatten.count id
  | .available => s.destination.availableBlockRefs.flatten.count (.block id)
  | .checkedOut => (s.checkedOut.map Prod.fst).count (.block id)
  | .handedOut => s.partialBlocks.count (.block id)
  | .done => s.destination.doneBlockIds.flatten.count id

theorem status_eq_ofOccurrences (s : PoolSystem) (id : BlockId) :
    s.status id = ofOccurrences (s.occurrences id) := by
  simp only [status, ofOccurrences, occurrences, List.count_pos_iff]

private theorem count_filterMap_getID (handles : List MutableBlockReference) (id : BlockId) :
    (handles.filterMap MutableBlockReference.getID?).count id = handles.count (.block id) := by
  induction handles with
  | nil => rfl
  | cons handle handles ih =>
    cases handle <;> simp [MutableBlockReference.getID?, List.count_cons, ih]

/-- Every occurrence of a block is one of its entries in `blocks`. -/
theorem total_occurrences (s : PoolSystem) (id : BlockId) :
    total (s.occurrences id) = s.blocks.count id := by
  simp only [total, occurrences, blocks, handles, List.filterMap_append, List.count_append,
    count_filterMap_getID]
  omega

/-- A block the system did not hold occurs nowhere in it. -/
private theorem occurrences_eq_zero_of_fresh {s : PoolSystem} {fresh id : BlockId}
    (absent : fresh ∉ s.blocks) (added : 0 < [fresh].count id) (R : BlockState) :
    s.occurrences id R = 0 := by
  obtain rfl := List.mem_singleton.mp (List.count_pos_iff.mp added)
  have none := total_occurrences s id
  rw [List.count_eq_zero.mpr absent] at none
  simp only [total] at none
  cases R <;> omega

private theorem count_block_singleton (b id : BlockId) :
    [MutableBlockReference.block b].count (.block id) = [b].count id := by
  simp [List.count_singleton]

/-- A call that adds no id only hands loaded blocks from the pools to `partial_blocks`. -/
private theorem moves_step_drain (s : PoolSystem) {call : PoolCall}
    (addsNone : ∀ q, call.idAddedTo q = none) (id : BlockId) :
    Moves (s.occurrences id) ((s.step (.pool call)).occurrences id) := by
  obtain ⟨handed, appended, moved⟩ := call.conserves_apply (s.partialBlocks, s.destination)
  have handedCount := moved.count_eq (.block id)
  have idsKept : (call.apply (s.partialBlocks, s.destination)).2.availableBlockIds =
      s.destination.availableBlockIds :=
    List.ext_getElem? fun q => by simp [PoolCall.availableBlockIds_apply, addsNone]
  refine .inl ⟨.available, .handedOut, handed.count (.block id), by decide, fun R => ?_⟩
  cases R <;> simp only [occurrences, step, appended, idsKept, PoolCall.doneBlockIds_apply,
    List.count_append, reduceCtorEq, if_true, if_false] at handedCount ⊢ <;> omega

private theorem moves_step_pool {s : PoolSystem} (inv : s.Invariant) (call : PoolCall)
    (admissible : s.Admissible (.pool call)) (id : BlockId) :
    Moves (s.occurrences id) ((s.step (.pool call)).occurrences id) := by
  cases call with
  | addBlockToPool bid partId =>
    -- the id joins its partition's unloaded ids
    have added : (s.destination.availableBlockIds.modify (· ++ [bid]) partId).flatten.count id =
        s.destination.availableBlockIds.flatten.count id + [bid].count id := by
      rw [(flatten_modify_append_perm _ [bid]
        (by rw [inv.sized.2.1]; exact admissible.1)).count_eq, List.count_append, Nat.add_comm]
    refine .inr ⟨.unloaded, [bid].count id, by decide,
      occurrences_eq_zero_of_fresh admissible.2, fun R => ?_⟩
    cases R <;> simp [occurrences, step, PoolCall.apply, added]
  | getPartiallyFilledBlocksInPartition _ | getPartiallyFilledBlocks =>
    exact moves_step_drain s (fun _ => by rfl) id

private theorem moves_step_getBlockForInsertionInPartition {s : PoolSystem}
    {partId : PartitionId} {newId : BlockId}
    (admissible : s.Admissible (.getBlockForInsertionInPartition partId newId)) (id : BlockId) :
    Moves (s.occurrences id)
      ((s.step (.getBlockForInsertionInPartition partId newId)).occurrences id) := by
  rcases s.destination.getBlockForInsertionInPartition_cases partId newId with
    ⟨block, popped, checkout⟩ | ⟨-, loaded, popped, checkout⟩ | ⟨-, -, checkout⟩
  -- a loaded block moves from its pool to the worker
  · have pooled := (flatten_modify_dropLast_perm _ popped).count_eq (.block id)
    refine .inl ⟨.available, .checkedOut, [block].count (.block id), by decide, fun R => ?_⟩
    cases R <;> simp only [occurrences, step_getBlockForInsertionInPartition_eq s checkout,
      List.map_append, List.map_cons, List.map_nil, List.count_append, reduceCtorEq, if_true,
      if_false] at pooled ⊢ <;> omega
  -- an unloaded block is loaded for the worker
  · have unloaded := (flatten_modify_dropLast_perm _ popped).count_eq id
    refine .inl ⟨.unloaded, .checkedOut, [loaded].count id, by decide, fun R => ?_⟩
    cases R <;> simp only [occurrences, step_getBlockForInsertionInPartition_eq s checkout,
      List.map_append, List.map_cons, List.map_nil, List.count_append, count_block_singleton,
      reduceCtorEq, if_true, if_false] at unloaded ⊢ <;> omega
  -- a new block is created for the worker
  · refine .inr ⟨.checkedOut, [newId].count id, by decide,
      occurrences_eq_zero_of_fresh admissible.2, fun R => ?_⟩
    cases R <;> simp only [occurrences, step_getBlockForInsertionInPartition_eq s checkout,
      List.map_append, List.map_cons, List.map_nil, List.count_append, count_block_singleton,
      reduceCtorEq, if_true, if_false] <;> omega

private theorem moves_step_returnBlockInPartition {s : PoolSystem} (inv : s.Invariant)
    {block : MutableBlockReference} {full : Bool} {partId : PartitionId} {worker : ClientId}
    (admissible : s.Admissible (.returnBlockInPartition block full partId worker))
    (id : BlockId) :
    Moves (s.occurrences id)
      ((s.step (.returnBlockInPartition block full partId worker)).occurrences id) := by
  have member : (block, partId) ∈ s.checkedOut := admissible
  have inRange : partId < s.destination.numPartitions := inv.checkedOutInRange _ member
  have released := count_checkedOut_erase member (.block id)
  cases full with
  | false =>
    -- the block goes back onto its partition's pool
    have pooled := (flatten_modify_append_perm s.destination.availableBlockRefs [block]
      (by rw [inv.sized.1]; exact inRange)).count_eq (.block id)
    refine .inl ⟨.checkedOut, .available, [block].count (.block id), by decide, fun R => ?_⟩
    cases R <;> simp only [occurrences,
      step_returnBlockInPartition_eq s (returnBlockInPartition_false ..), List.count_append,
      reduceCtorEq, if_true, if_false] at pooled ⊢ <;> omega
  | true =>
    cases block with
    | null => exact absurd member (inv.null_not_checkedOut partId)
    | block b =>
      -- the block is sealed
      have sealed := (flatten_modify_append_perm s.destination.doneBlockIds [b]
        (by rw [inv.sized.2.2]; exact inRange)).count_eq id
      rw [count_block_singleton] at released
      refine .inl ⟨.checkedOut, .done, [b].count id, by decide, fun R => ?_⟩
      cases R <;> simp only [occurrences,
        step_returnBlockInPartition_eq s (returnBlockInPartition_true ..), List.count_append,
        reduceCtorEq, if_true, if_false] at sealed ⊢ <;> omega

/-- What an admissible step does to each block's occurrences. -/
theorem moves_step {s : PoolSystem} (inv : s.Invariant) {action : PoolAction}
    (admissible : s.Admissible action) (id : BlockId) :
    Moves (s.occurrences id) ((s.step action).occurrences id) := by
  cases action with
  | pool call => exact moves_step_pool inv call admissible id
  | getBlockForInsertionInPartition partId newId =>
    exact moves_step_getBlockForInsertionInPartition admissible id
  | returnBlockInPartition block full partId worker =>
    exact moves_step_returnBlockInPartition inv admissible id
  -- the message that ends a seal moves no block
  | sendBlockFilledMessage => exact Moves.rfl _

/-- Each admissible step keeps every block's state or makes one move of the per-block state
machine. -/
theorem status_step {s : PoolSystem} (inv : s.Invariant) {action : PoolAction}
    (admissible : s.Admissible action) (id : BlockId) :
    (s.step action).status id = s.status id ∨
      Transition (s.status id) ((s.step action).status id) := by
  simp only [status_eq_ofOccurrences]
  refine ofOccurrences_of_moves (moves_step inv admissible id) ?_
  rw [total_occurrences]
  exact List.nodup_iff_count_le_one.mp inv.unique id

/-- Along every admissible run each block's state moves one transition of the per-block state
machine at a time: between two consecutive systems of the run it stays, or makes one move of the
machine's table. -/
theorem status_chain_runActions {s : PoolSystem} (inv : s.Invariant) {actions : List PoolAction}
    (admissible : AdmissibleRun s actions) (id : BlockId) :
    ((List.scanl step s actions).map (·.status id)).Chain'
      fun before after => after = before ∨ Transition before after := by
  induction actions generalizing s with
  | nil => exact List.chain'_singleton _
  | cons action actions ih =>
    have head : ((List.scanl step (s.step action) actions).map (·.status id)).head? =
        some ((s.step action).status id) := by
      cases actions <;> rfl
    refine List.chain'_cons'.mpr ⟨fun next first => ?_, ih (inv.step admissible.1) admissible.2⟩
    rw [head, Option.mem_some_iff] at first
    exact first ▸ status_step inv admissible.1 id

/-- Block 7 added to partition 0, loaded by a checkout, sealed, and its seal announced. -/
theorem status_chain_runActions_seal :
    let actions : List PoolAction :=
      [.pool (.addBlockToPool 7 0), .getBlockForInsertionInPartition 0 5,
        .returnBlockInPartition (.block 7) true 0 9, .sendBlockFilledMessage 7 9]
    (initial ⟨1, 2, 3⟩ 1).Invariant ∧ AdmissibleRun (initial ⟨1, 2, 3⟩ 1) actions ∧
      (List.scanl step (initial ⟨1, 2, 3⟩ 1) actions).map (·.status 7) =
        [none, some .unloaded, some .checkedOut, some .done, some .done] ∧
      ((List.scanl step (initial ⟨1, 2, 3⟩ 1) actions).map (·.status 7)).Chain'
        fun before after => after = before ∨ Transition before after :=
  ⟨Invariant.initial _ _, by decide, by decide,
    status_chain_runActions (Invariant.initial _ _) (by decide) 7⟩

end PoolSystem

end QuickstepStorage
