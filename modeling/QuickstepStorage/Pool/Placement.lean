import QuickstepStorage.Pool.Flush

/-! # Blocks stay in their partition

Every block of a partition belongs to that partition. Relative to how blocks come in, a block is
only ever in the partition it was added to by `addBlockToPool` or created for by a checkout, and
in no other. A step takes blocks out of partitions (a checkout, a drain), and puts a block only
back where it was taken from (a return to the supplying partition, a seal) or where the step
introduces it.
-/

namespace QuickstepStorage

/-- An element of a partition's vector after `modify` was there before, or is in what `f` made
of the modified partition's vector. -/
private theorem mem_getD_modify {α : Type} {pools : List (List α)} {f : List α → List α}
    {p q : Nat} {x : α} (member : x ∈ (pools.modify f p).getD q []) :
    x ∈ pools.getD q [] ∨ p = q ∧ x ∈ f (pools.getD q []) := by
  simp only [List.getD_eq_getElem?_getD, List.getElem?_modify] at member ⊢
  revert member
  cases pools[q]? with
  | none => exact fun member => absurd member (List.not_mem_nil x)
  | some pool =>
    intro member
    by_cases same : p = q
    · exact .inr ⟨same, by simpa [same] using member⟩
    · exact .inl (by simpa [same] using member)

private theorem mem_getD_modify_append {α : Type} {pools : List (List α)} {extra : List α}
    {p q : Nat} {x : α} (member : x ∈ (pools.modify (· ++ extra) p).getD q []) :
    x ∈ pools.getD q [] ∨ p = q ∧ x ∈ extra := by
  rcases mem_getD_modify member with old | ⟨same, new⟩
  · exact .inl old
  · exact (List.mem_append.mp new).imp_right fun added => ⟨same, added⟩

private theorem mem_getD_modify_dropLast {α : Type} {pools : List (List α)} {p q : Nat} {x : α}
    (member : x ∈ (pools.modify List.dropLast p).getD q []) : x ∈ pools.getD q [] := by
  rcases mem_getD_modify member with old | ⟨-, kept⟩
  exacts [old, List.dropLast_subset _ kept]

private theorem mem_getD_set_nil {α : Type} {pools : List (List α)} {p q : Nat} {x : α}
    (member : x ∈ (pools.set p []).getD q []) : x ∈ pools.getD q [] := by
  rw [List.getD_eq_getElem?_getD, List.getElem?_set] at member
  split at member
  · split at member <;> exact absurd member (List.not_mem_nil x)
  · rwa [List.getD_eq_getElem?_getD]

private theorem mem_getD_mapIdx_clear {α : Type} {pools : List (List α)} {n q : Nat} {x : α}
    (member : x ∈ (pools.mapIdx fun p pool => if p < n then [] else pool).getD q []) :
    x ∈ pools.getD q [] := by
  simp only [List.getD_eq_getElem?_getD, List.getElem?_mapIdx] at member ⊢
  revert member
  cases pools[q]? with
  | none => exact fun member => absurd member (List.not_mem_nil x)
  | some pool => by_cases below : q < n <;> simp [below]

namespace PoolSystem

open PartitionAwareInsertDestination

private theorem placedIn_step_pool {s : PoolSystem} (call : PoolCall) {id : BlockId}
    {p : PartitionId} (placed : (s.step (.pool call)).PlacedIn id p) :
    s.PlacedIn id p ∨ (id, p) ∈ s.introducedAt (.pool call) := by
  cases call with
  | addBlockToPool bid partId =>
    -- the id joins its partition's unloaded ids
    simp only [PlacedIn, step, PoolCall.apply, addBlockToPool_availableBlockRefs,
      addBlockToPool_availableBlockIds, addBlockToPool_doneBlockIds] at placed
    rcases placed with refs | ids | rest
    · exact .inl (.inl refs)
    · rcases mem_getD_modify_append ids with old | ⟨rfl, added⟩
      · exact .inl (.inr (.inl old))
      · exact .inr (by simp [introducedAt, List.mem_singleton.mp added])
    · exact .inl (.inr (.inr rest))
  | getPartiallyFilledBlocksInPartition partId =>
    simp only [PlacedIn, step, PoolCall.apply, getPartiallyFilledBlocksInPartition_eq] at placed
    exact .inl (placed.imp_left mem_getD_set_nil)
  | getPartiallyFilledBlocks =>
    simp only [PlacedIn, step, PoolCall.apply, getPartiallyFilledBlocks_eq] at placed
    exact .inl (placed.imp_left mem_getD_mapIdx_clear)

private theorem placedIn_step_getBlockForInsertionInPartition {s : PoolSystem}
    {partId : PartitionId} {newId id : BlockId} {p : PartitionId}
    (placed : (s.step (.getBlockForInsertionInPartition partId newId)).PlacedIn id p) :
    s.PlacedIn id p ∨
      (id, p) ∈ s.introducedAt (.getBlockForInsertionInPartition partId newId) := by
  rcases s.destination.getBlockForInsertionInPartition_cases partId newId with
    ⟨block, popped, checkout⟩ | ⟨noLoaded, loaded, popped, checkout⟩ |
      ⟨noLoaded, noUnloaded, checkout⟩ <;>
    simp only [PlacedIn, step_getBlockForInsertionInPartition_eq s checkout, List.mem_append,
      List.mem_singleton, Prod.mk.injEq] at placed
  -- a loaded block is taken from its pool
  · rcases placed with refs | ids | done | held | ⟨rfl, rfl⟩
    · exact .inl (.inl (mem_getD_modify_dropLast refs))
    · exact .inl (.inr (.inl ids))
    · exact .inl (.inr (.inr (.inl done)))
    · exact .inl (.inr (.inr (.inr held)))
    · exact .inl (.inl (List.mem_of_getLast?_eq_some popped))
  -- an unloaded block is taken from its partition's ids and loaded
  · rcases placed with refs | ids | done | held | ⟨taken, rfl⟩
    · exact .inl (.inl refs)
    · exact .inl (.inr (.inl (mem_getD_modify_dropLast ids)))
    · exact .inl (.inr (.inr (.inl done)))
    · exact .inl (.inr (.inr (.inr held)))
    · cases taken
      exact .inl (.inr (.inl (List.mem_of_getLast?_eq_some popped)))
  -- a new block is created for the partition
  · rcases placed with refs | ids | done | held | ⟨created, rfl⟩
    · exact .inl (.inl refs)
    · exact .inl (.inr (.inl ids))
    · exact .inl (.inr (.inr (.inl done)))
    · exact .inl (.inr (.inr (.inr held)))
    · cases created
      simp only [introducedAt]
      rw [if_pos ⟨noLoaded, noUnloaded⟩]
      exact .inr (List.mem_singleton_self _)

private theorem placedIn_step_returnBlockInPartition {s : PoolSystem}
    {block : MutableBlockReference} {full : Bool} {partId : PartitionId} {worker : ClientId}
    (admissible : s.Admissible (.returnBlockInPartition block full partId worker))
    {id : BlockId} {p : PartitionId}
    (placed : (s.step (.returnBlockInPartition block full partId worker)).PlacedIn id p) :
    s.PlacedIn id p := by
  have member : (block, partId) ∈ s.checkedOut := admissible
  cases full with
  | false =>
    -- the block goes back onto the pool of the partition it came from
    simp only [PlacedIn, step_returnBlockInPartition_eq s (returnBlockInPartition_false ..)]
      at placed
    rcases placed with refs | ids | done | held
    · rcases mem_getD_modify_append refs with old | ⟨rfl, returned⟩
      · exact .inl old
      · exact .inr (.inr (.inr (List.mem_singleton.mp returned ▸ member)))
    · exact .inr (.inl ids)
    · exact .inr (.inr (.inl done))
    · exact .inr (.inr (.inr (List.erase_subset _ _ held)))
  | true =>
    cases block with
    | null =>
      simp only [PlacedIn, step_returnBlockInPartition_eq s
        (show s.destination.returnBlockInPartition .null true partId = (s.destination, none)
          from rfl)] at placed
      exact placed.imp_right (Or.imp_right (Or.imp_right (List.erase_subset _ _ ·)))
    | block b =>
      -- the block is sealed in the partition it came from
      simp only [PlacedIn, step_returnBlockInPartition_eq s (returnBlockInPartition_true ..)]
        at placed
      rcases placed with refs | ids | done | held
      · exact .inl refs
      · exact .inr (.inl ids)
      · rcases mem_getD_modify_append done with old | ⟨rfl, sealed⟩
        · exact .inr (.inr (.inl old))
        · obtain rfl := List.mem_singleton.mp sealed
          exact .inr (.inr (.inr member))
      · exact .inr (.inr (.inr (List.erase_subset _ _ held)))

/-- A step puts a block only where it already was or where the step introduces it. -/
theorem placedIn_step {s : PoolSystem} {action : PoolAction} (admissible : s.Admissible action)
    {id : BlockId} {p : PartitionId} (placed : (s.step action).PlacedIn id p) :
    s.PlacedIn id p ∨ (id, p) ∈ s.introducedAt action := by
  cases action with
  | pool call => exact placedIn_step_pool call placed
  | getBlockForInsertionInPartition partId newId =>
    exact placedIn_step_getBlockForInsertionInPartition placed
  | returnBlockInPartition block full partId worker =>
    exact .inl (placedIn_step_returnBlockInPartition admissible placed)
  | sendBlockFilledMessage id worker => exact .inl placed

/-- Along an admissible run a block is only placed where it was before or where the run
introduces it. -/
theorem placedIn_runActions {s : PoolSystem} {actions : List PoolAction}
    (admissible : AdmissibleRun s actions) {id : BlockId} {p : PartitionId}
    (placed : (s.runActions actions).PlacedIn id p) :
    s.PlacedIn id p ∨ (id, p) ∈ s.introducedAtBy actions := by
  induction actions generalizing s with
  | nil => exact .inl placed
  | cons action actions ih =>
    rw [introducedAtBy, List.mem_append]
    rcases ih admissible.2 placed with before | introduced
    · exact (placedIn_step admissible.1 before).imp_right .inl
    · exact .inr (.inr introduced)

private theorem introducedAt_map_fst (s : PoolSystem) (action : PoolAction) :
    (s.introducedAt action).map Prod.fst = s.introduced action := by
  rcases action with (_ | _ | _) | ⟨partId, newId⟩ | _ | _
  all_goals simp only [introducedAt, introduced, List.map_cons, List.map_nil]
  split <;> rfl

private theorem introducedAtBy_map_fst (s : PoolSystem) (actions : List PoolAction) :
    (s.introducedAtBy actions).map Prod.fst = s.introducedBy actions := by
  induction actions generalizing s with
  | nil => rfl
  | cons action actions ih =>
    rw [introducedAtBy, introducedBy, List.map_append, introducedAt_map_fst, ih]

/-- Along every admissible run from construction, a block in partition `p` (in one of its
vectors, or held by a worker that took it from there) was added to or created for `p`, and it is
in no other partition. -/
theorem placedIn_introducedAtBy (base : InsertDestination) (numPartitions : Nat)
    (actions : List PoolAction) (admissible : AdmissibleRun (initial base numPartitions) actions)
    (id : BlockId) (p : PartitionId)
    (placed : ((initial base numPartitions).runActions actions).PlacedIn id p) :
    (id, p) ∈ (initial base numPartitions).introducedAtBy actions ∧
      ∀ q, ((initial base numPartitions).runActions actions).PlacedIn id q → q = p := by
  have nowhere : ∀ q, ¬ (initial base numPartitions).PlacedIn id q := fun q => by
    simp [PlacedIn, initial, List.getElem?_getD_replicate_default_eq]
  have introduced : ∀ q, ((initial base numPartitions).runActions actions).PlacedIn id q →
      (id, q) ∈ (initial base numPartitions).introducedAtBy actions := fun q placed =>
    (placedIn_runActions admissible placed).resolve_left (nowhere q)
  have once := blocks_runActions_perm (Invariant.initial base numPartitions) admissible
  rw [← introducedAtBy_map_fst] at once
  have distinct := (once.nodup_iff.mp
    ((Invariant.initial base numPartitions).runActions admissible).unique).of_append_left
  refine ⟨introduced p placed, fun q other => ?_⟩
  exact congrArg Prod.snd
    (List.inj_on_of_nodup_map distinct (introduced q other) (introduced p placed) rfl)

theorem placedIn_introducedAtBy_checkout :
    let actions : List PoolAction :=
      [.pool (.addBlockToPool 7 1), .getBlockForInsertionInPartition 0 5]
    AdmissibleRun (initial ⟨1, 2, 3⟩ 2) actions ∧
      ((initial ⟨1, 2, 3⟩ 2).runActions actions).PlacedIn 5 0 ∧
      (5, 0) ∈ (initial ⟨1, 2, 3⟩ 2).introducedAtBy actions ∧
        ∀ q, ((initial ⟨1, 2, 3⟩ 2).runActions actions).PlacedIn 5 q → q = 0 :=
  have placed : ((initial ⟨1, 2, 3⟩ 2).runActions
      [.pool (.addBlockToPool 7 1), .getBlockForInsertionInPartition 0 5]).PlacedIn 5 0 := by
    decide
  ⟨by decide, placed, placedIn_introducedAtBy _ _ _ (by decide) 5 0 placed⟩

end PoolSystem

end QuickstepStorage
