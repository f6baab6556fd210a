import SparseEngine.PrefixCache.Index

/-! What `StandardCacheManager` shares between all requests. -/

namespace SparseEngine

/-- `StandardPrefixBlockPayload`. -/
structure StandardPrefixBlockPayload where
  tokenSlots : Option (List Nat)
  hostBlockIndex : Option Nat := none
  retainedOffsets : Option (List Nat) := none
deriving DecidableEq, Repr

def StandardPrefixBlockPayload.residentTokens (payload : StandardPrefixBlockPayload)
    (blockSize : Nat) : Nat :=
  match payload.retainedOffsets with
  | none => blockSize
  | some offsets => offsets.length

abbrev StandardBlock (ι : Type) := PrefixCacheBlock ι StandardPrefixBlockPayload

/-- Where a device call of a transfer can raise: the stream is capturing a graph, an event
cannot be created, or the submitted copy fails. -/
inductive DeviceFault where
  | capturing
  | events
  | copy
deriving DecidableEq, Repr

/-- `PrefixD2HOperation`. -/
structure PrefixD2HOperation (ι : Type) where
  blocks : List (StandardBlock ι)
  hostIndices : List Nat

/-- `PrefixOffloadController` with its `PinnedPrefixBlockPool`. -/
structure PrefixOffloadController (ι : Type) where
  freeIndices : List Nat := []
  allocated : Finset Nat := ∅
  d2hOperations : List (PrefixD2HOperation ι) := []
  h2dOperations : List (List (StandardBlock ι)) := []
  h2dByBlockId : Finset ι := ∅
  polls : Nat := 0

structure StandardConfig (ι : Type) where
  index : PrefixIndexConfig ι
  numKvcacheSlots : Nat
  numRows : Nat
  rowCapacity : Nat
  hostCapacity : Option Nat := none
  multimodal : Nat → Bool := fun _ => false
  d2hReady : Nat → Nat := fun _ => 0
  h2dReady : Nat → Nat := fun _ => 0

/-- `prefix_cache_block_size`. -/
def StandardConfig.blockSize {ι : Type} (cfg : StandardConfig ι) : Nat := cfg.index.blockSize

/-- The shared part of `StandardCacheManager`. -/
structure SlotPool (ι : Type) where
  prefixCache : RadixPrefixIndex ι StandardPrefixBlockPayload := {}
  freeSlots : List Nat := []
  offload : PrefixOffloadController ι := {}
  writeThroughCandidates : Dict ι (StandardBlock ι) := .empty

namespace SlotPool

variable {ι : Type} [LinearOrder ι]

def writeThroughCandidate {π : Type} (index : RadixPrefixIndex ι π)
    (b : PrefixCacheBlock ι π) : Bool :=
  let block := index.deref b
  index.isIndexed b && block.refCount = 0 && block.residency.devicePresent &&
    !block.residency.hostPresent && block.residency.transfer.isNone

/-- The key of the candidate order. -/
def WriteThroughLe {π : Type} (a b : PrefixCacheBlock ι π) : Prop :=
  a.logicalBlockIdx < b.logicalBlockIdx ∨
    (a.logicalBlockIdx = b.logicalBlockIdx ∧ a.lastAccess ≤ b.lastAccess)

instance {π : Type} : DecidableRel (@WriteThroughLe ι π) := fun a b => by
  unfold WriteThroughLe
  infer_instance

def selectRootContiguous {π : Type} (index : RadixPrefixIndex ι π) :
    List (PrefixCacheBlock ι π) → List (PrefixCacheBlock ι π) → Finset ι →
      List (PrefixCacheBlock ι π)
  | [], selected, _ => selected
  | block :: blocks, selected, selectedIds =>
    let parentReady : Bool := block.parentBlockId.all fun parentId =>
      blockWith index.blocks (fun parent => parent.residency.hostPresent ||
        parent.residency.transfer = some .d2h || parent.stableBlockId ∈ selectedIds) parentId
    if parentReady then
      selectRootContiguous index blocks (selected ++ [block])
        (insert block.stableBlockId selectedIds)
    else
      selectRootContiguous index blocks selected selectedIds

/-- `select_write_through_candidates`. -/
def selectWriteThroughCandidates {π : Type} (index : RadixPrefixIndex ι π)
    (pending : Dict ι (PrefixCacheBlock ι π)) (newlyUnreferenced : List (PrefixCacheBlock ι π)) :
    Dict ι (PrefixCacheBlock ι π) × List (PrefixCacheBlock ι π) :=
  let pending := newlyUnreferenced.foldl (fun d b =>
    if (index.deref b).refCount = 0 then d.set b.stableBlockId b else d) pending
  let candidates := (pending.values.filter (writeThroughCandidate index)).map index.deref
  let pending := pending.values.foldl (fun d b =>
    if writeThroughCandidate index b then d else d.erase b.stableBlockId) pending
  (pending, selectRootContiguous index (candidates.insertionSort WriteThroughLe) [] ∅)

end SlotPool

end SparseEngine
