import SparseEngine.CacheManager.SlotPool

/-! `StandardCacheManager` gives every live sequence a row of KV slots. -/

namespace SparseEngine

/-- `PrefixRuntimeState`. -/
structure PrefixRuntimeState (ι : Type) where
  parentBlockId : Option ι
  nextLogicalBlockIdx : Nat
  pendingTokens : List Int
  pendingSlots : List Nat

structure PendingPrefixBlock (ι : Type) where
  stableBlockId : ι
  parentBlockId : Option ι
  logicalBlockIdx : Nat
  payload : StandardPrefixBlockPayload
  tokenIds : List Int

/-- The prefix hit that a `Sequence` carries. -/
structure PrefixHit (ι : Type) where
  hitLen : Nat := 0
  hitBlockCount : Nat := 0
  hitLastBlockId : Option ι := none

structure RequestTables (ι : Type) where
  freeRows : List Nat := []
  seqIdToRow : Dict Nat Nat := .empty
  rowSlots : Nat → List Nat := fun _ => []
  rowLogicalLens : Nat → Nat := fun _ => 0
  seqIdToCachedRanges : Dict Nat (List (Nat × Nat)) := .empty
  seqIdToPrefixBlocks : Dict Nat (List (StandardBlock ι)) := .empty
  seqIdToMaterializedBlocks : Dict Nat (Dict ι (StandardBlock ι)) := .empty
  prefixRuntimeStates : Dict Nat (PrefixRuntimeState ι) := .empty
  pendingPrefixBlocks : Dict Nat (List (PendingPrefixBlock ι)) := .empty
  hits : Nat → PrefixHit ι := fun _ => {}
  nextObjectId : Nat := 0

structure StandardCacheManager (ι : Type) where
  pool : SlotPool ι
  requests : RequestTables ι

namespace StandardCacheManager

variable {ι : Type} [LinearOrder ι]

abbrev ManagerM (ι α : Type) := PyM (StandardCacheManager ι) α

def setRequests (f : RequestTables ι → RequestTables ι) : ManagerM ι Unit :=
  PyM.modify fun s => { s with requests := f s.requests }

def usablePrefixCacheTokens (promptLen blockSize : Nat) : Nat :=
  if promptLen ≤ 1 then 0 else (promptLen - 1) / blockSize * blockSize

/-- The first `n` full blocks of the new tokens. -/
def fullBlocks (blockSize : Nat) : Nat → List Int → List Nat → List (List Int × List Nat)
  | 0, _, _ => []
  | n + 1, tokens, slots =>
    (tokens.take blockSize, slots.take blockSize) ::
      fullBlocks blockSize n (tokens.drop blockSize) (slots.drop blockSize)

def makePrefixBlockPayload (slots : List Nat) : StandardPrefixBlockPayload :=
  { tokenSlots := some slots }

def completeBlocks (cfg : StandardConfig ι) : List (List Int × List Nat) →
    PrefixRuntimeState ι → List (PendingPrefixBlock ι) →
    PrefixRuntimeState ι × List (PendingPrefixBlock ι)
  | [], state, pending => (state, pending)
  | (tokens, slots) :: completed, state, pending =>
    let blockId := cfg.index.hashBlock tokens state.parentBlockId
    completeBlocks cfg completed
      { state with
        parentBlockId := some blockId
        nextLogicalBlockIdx := state.nextLogicalBlockIdx + 1 }
      (pending ++ [⟨blockId, state.parentBlockId, state.nextLogicalBlockIdx,
        makePrefixBlockPayload slots, tokens⟩])

variable (cfg : StandardConfig ι)

def recordFullBlocks (completed : List (List Int × List Nat))
    (tokens : List Int) (slots : List Nat) (state : PrefixRuntimeState ι)
    (pending : List (PendingPrefixBlock ι)) :
    PrefixRuntimeState ι × List (PendingPrefixBlock ι) :=
  let n := tokens.length / cfg.blockSize
  completeBlocks cfg (completed ++ fullBlocks cfg.blockSize n tokens slots)
    { state with
      pendingTokens := tokens.drop (n * cfg.blockSize)
      pendingSlots := slots.drop (n * cfg.blockSize) } pending

/-- The body of `_record_frozen_prefix_materialization`. -/
def recordTokens (tokens : List Int) (slots : List Nat)
    (state : PrefixRuntimeState ι) (pending : List (PendingPrefixBlock ι)) :
    PrefixRuntimeState ι × List (PendingPrefixBlock ι) :=
  if state.pendingTokens.isEmpty then
    recordFullBlocks cfg [] tokens slots state pending
  else
    let take := min (cfg.blockSize - state.pendingTokens.length) tokens.length
    let blockTokens := state.pendingTokens ++ tokens.take take
    let blockSlots := state.pendingSlots ++ slots.take take
    if blockTokens.length = cfg.blockSize then
      recordFullBlocks cfg [(blockTokens, blockSlots)] (tokens.drop take) (slots.drop take) state
        pending
    else
      ({ state with pendingTokens := blockTokens, pendingSlots := blockSlots }, pending)

def runtimeState (r : RequestTables ι) (seqId : Nat) : PrefixRuntimeState ι :=
  (r.prefixRuntimeStates.get? seqId).getD
    ⟨(r.hits seqId).hitLastBlockId, (r.hits seqId).hitBlockCount, [], []⟩

def recordPrefixMaterialization (seqId : Nat) (tokens : List Int)
    (slots : List Nat) : ManagerM ι Unit :=
  if cfg.multimodal seqId then
    pure ()
  else do
    PyM.raiseIf (tokens.length ≠ slots.length)
      (.runtimeError "Prefix materialization token/slot mismatch")
    if tokens.isEmpty then
      pure ()
    else
      setRequests fun r =>
        let result := recordTokens cfg tokens slots (runtimeState r seqId)
          ((r.pendingPrefixBlocks.get? seqId).getD [])
        { r with
          prefixRuntimeStates := r.prefixRuntimeStates.set seqId result.1
          pendingPrefixBlocks := r.pendingPrefixBlocks.set seqId result.2 }

end StandardCacheManager

end SparseEngine
