import SparseEngine.CacheManager.SlotPool

/-! `PrefixCacheCoordinator` owns the radix index of runtimes whose layers keep both KV and
recurrent state. -/

namespace SparseEngine

open RadixPrefixIndex

/-- `RecurrentPrefixPayload`. -/
structure RecurrentPrefixPayload where
  objectId : Nat
  nbytes : Nat
  resident : Bool := true
deriving DecidableEq, Repr

structure MixedPrefixBlockPayload (κ : Type) where
  kvPayload : κ
  recurrentPayload : RecurrentPrefixPayload
  tokenCount : Nat
  accountingBytes : Nat
  recurrentBytes : Nat
  hostBlockIndex : Option Nat := none

abbrev MixedBlock (ι κ : Type) := PrefixCacheBlock ι (MixedPrefixBlockPayload κ)

structure PendingMixedPrefixBlock (ι κ : Type) where
  stableBlockId : ι
  parentBlockId : Option ι
  logicalBlockIdx : Nat
  tokenIds : List Int
  payload : MixedPrefixBlockPayload κ

structure MixedPrefixRuntimeState (ι : Type) where
  parentBlockId : Option ι := none
  nextLogicalBlockIdx : Nat := 0
  pendingTokens : List Int := []

structure MixedSequence (ι : Type) where
  seqId : Nat
  tokenIds : List Int := []
  numPromptTokens : Nat := 0
  numPrefilledTokens : Nat := 0
  currentChunkSize : Nat := 0
  decodeInputToken : Int := 0
  multimodal : Bool := false
  prefixCacheHitLen : Nat := 0
  prefixCacheHitBlockCount : Nat := 0
  prefixCacheHitLastBlockId : Option ι := none

structure MixedManagers (μ κ : Type) where
  numFreeSlots : μ → Nat
  deviceSlotCount : κ → μ → Option Nat
  validatePrefixKvAttach : Nat → PyM μ Bool
  attachPrefixKvPayloads : Nat → List κ → PyM μ Unit
  rollbackPrefixKvAttach : Nat → List κ → Bool → PyM μ Unit
  buildPrefixKvPayload : Nat → Nat → Nat → PyM μ κ
  prefixKvPayloadNbytes : κ → PyM μ Nat
  markMaterializedPrefixKvPayload : Nat → κ → PyM μ Unit
  rollbackMaterializedPrefixKvPayload : Nat → κ → PyM μ Unit
  freePrefixKvPayload : κ → PyM μ Unit
  freePrefixKvPayloadDevice : κ → PyM μ Unit
  allocatePrefixKvPayloadsDevice : List κ → PyM μ Unit
  buildPrefixRecurrentPayload : Nat → Nat → PyM μ Nat
  attachPrefixRecurrentPayload : Nat → RecurrentPrefixPayload → Bool → PyM μ Unit

structure CoordinatorConfig (ι κ μ : Type) where
  index : PrefixIndexConfig ι
  managers : MixedManagers μ κ
  maxRecurrentBytes : Nat
  recurrentSnapshotNbytes : Nat
  hostCapacity : Option Nat := none
  d2hStagingBlocks : Nat := 1
  d2hReady : Nat → Nat := fun _ => 0
  h2dReady : Nat → Nat := fun _ => 0
  fault : Nat → Option DeviceFault := fun _ => none

def CoordinatorConfig.blockSize {ι κ μ : Type} (cfg : CoordinatorConfig ι κ μ) : Nat :=
  cfg.index.blockSize

def CoordinatorConfig.offloadEnabled {ι κ μ : Type} (cfg : CoordinatorConfig ι κ μ) : Bool :=
  cfg.hostCapacity.isSome

/-- A batch of `_pending_d2h_batches`. -/
structure MixedD2HBatch (ι κ : Type) where
  blocks : List (MixedBlock ι κ)
  hostIndices : List Nat

/-- `MixedPrefixOffloadController` with its host pool. -/
structure MixedPrefixOffloadController (ι κ : Type) where
  freeIndices : List Nat := []
  allocated : Finset Nat := ∅
  pendingD2hBatches : List (MixedD2HBatch ι κ) := []
  d2hOperations : List (MixedD2HBatch ι κ) := []
  h2dOperations : List (List (MixedBlock ι κ)) := []
  h2dByBlockId : Finset ι := ∅
  deviceCalls : Nat := 0

/-- `_recurrent_bytes_cache`. -/
structure RecurrentBytesCache where
  insertEpoch : Nat
  removeEpoch : Nat
  total : Int
deriving DecidableEq, Repr

/-- `PrefixCacheCoordinator`. -/
structure PrefixCacheCoordinator (ι κ μ : Type) where
  managers : μ
  prefixCache : RadixPrefixIndex ι (MixedPrefixBlockPayload κ) := {}
  seqIdToPrefixBlocks : Dict Nat (List (MixedBlock ι κ)) := .empty
  seqIdToMaterializedBlocks : Dict Nat (Dict ι (MixedBlock ι κ)) := .empty
  runtimeStates : Dict Nat (MixedPrefixRuntimeState ι) := .empty
  pendingBlocks : Dict Nat (List (PendingMixedPrefixBlock ι κ)) := .empty
  pendingDuplicateRefs : Dict Nat (List ι) := .empty
  pendingBlockIds : Finset ι := ∅
  pendingRecurrentBytes : Int := 0
  recurrentBytesCache : Option RecurrentBytesCache := none
  capacityLimitedSeqIds : Finset Nat := ∅
  offload : MixedPrefixOffloadController ι κ := {}
  writeThroughCandidates : Dict ι (MixedBlock ι κ) := .empty
  nextObjectId : Nat := 0
  nextSnapshotId : Nat := 0
  liveSnapshots : Finset Nat := ∅
  releaseRaised : Bool := false

namespace PrefixCacheCoordinator

variable {ι κ μ : Type} [LinearOrder ι]

abbrev CoordM (ι κ μ α : Type) := PyM (PrefixCacheCoordinator ι κ μ) α

def onIndex {α : Type} (m : IndexM ι (MixedPrefixBlockPayload κ) α) :
    CoordM ι κ μ α :=
  PyM.zoom (·.prefixCache) (fun index c => { c with prefixCache := index }) m

def onManagers {α : Type} (m : PyM μ α) : CoordM ι κ μ α :=
  PyM.zoom (·.managers) (fun managers c => { c with managers := managers }) m

def modifyOffload (f : MixedPrefixOffloadController ι κ → MixedPrefixOffloadController ι κ) :
    CoordM ι κ μ Unit :=
  PyM.modify fun c => { c with offload := f c.offload }

variable (b : MixedBlock ι κ)

/-- Assign to the payload of the object `b`. -/
def setPayload (f : MixedPrefixBlockPayload κ → MixedPrefixBlockPayload κ) :
    CoordM ι κ μ Unit :=
  onIndex (PyM.modify fun s => s.assign { s.deref b with payload := f (s.deref b).payload })

/-- A call that returns memory. -/
def releasing (m : CoordM ι κ μ Unit) : CoordM ι κ μ Unit :=
  PyM.tryExcept m fun e => do
    PyM.modify fun c => { c with releaseRaised := true }
    PyM.raise e

def nextDeviceCall : CoordM ι κ μ Nat := do
  let k := (← PyM.get).offload.deviceCalls
  modifyOffload fun o => { o with deviceCalls := k + 1 }
  return k

/-- `PinnedPrefixBlockPool.allocate`. -/
def hostAllocate (count : Nat) : CoordM ι κ μ (List Nat) := do
  let o := (← PyM.get).offload
  PyM.raiseIf (count = 0) (.valueError "Host prefix allocation count must be positive")
  PyM.raiseIf (o.freeIndices.length < count) (.runtimeError "Prefix host pool is out of blocks")
  let indices := (o.freeIndices.drop (o.freeIndices.length - count)).reverse
  modifyOffload fun o =>
    { o with
      freeIndices := o.freeIndices.take (o.freeIndices.length - count)
      allocated := o.allocated ∪ indices.toFinset }
  return indices

/-- `PinnedPrefixBlockPool.free`. -/
def hostFree (indices : List Nat) : CoordM ι κ μ Unit := do
  let o := (← PyM.get).offload
  PyM.raiseIf (¬ indices.Nodup)
    (.runtimeError "Prefix host free contains duplicate block indices.")
  PyM.raiseIf (indices.any (· ∉ o.allocated) = true)
    (.runtimeError "Prefix host free contains unallocated indices")
  modifyOffload fun o =>
    { o with
      freeIndices := o.freeIndices ++ indices
      allocated := o.allocated \ indices.toFinset }

def payloadHostIndex (index : RadixPrefixIndex ι (MixedPrefixBlockPayload κ))
    (b : MixedBlock ι κ) : Except PyError Nat :=
  match (index.deref b).payload.hostBlockIndex with
  | none => .error (.runtimeError "Prefix offload block is missing its host block index")
  | some i => .ok i

/-- The loop of `free_host_payloads`. -/
def takeHostIndices : List (MixedBlock ι κ) → CoordM ι κ μ (List Nat)
  | [] => return []
  | b :: blocks => do
    let index := (← PyM.get).prefixCache
    if (index.deref b).residency.hostPresent = false then
      takeHostIndices blocks
    else do
      let i ← PyM.lift (payloadHostIndex index b)
      setPayload b fun payload => { payload with hostBlockIndex := none }
      let indices ← takeHostIndices blocks
      return i :: indices

variable (blocks : List (MixedBlock ι κ))

def freeHostPayloads : CoordM ι κ μ Unit := do
  let indices ← takeHostIndices blocks
  if indices.isEmpty then
    pure ()
  else
    hostFree indices

/-- `_finish_d2h`. -/
def finishD2hOperation (operation : MixedD2HBatch ι κ) : CoordM ι κ μ Unit :=
  PyM.forEach (fun (e : MixedBlock ι κ × Nat) => do
    setPayload e.1 fun payload => { payload with hostBlockIndex := some e.2 }
    onIndex (finishD2h e.1)) (operation.blocks.zip operation.hostIndices)

/-- `poll_d2h` of the base class. -/
def pollD2hOperations : Nat → CoordM ι κ μ Unit
  | 0 => pure ()
  | ready + 1 => do
    match (← PyM.get).offload.d2hOperations with
    | [] => pure ()
    | operation :: operations => do
      modifyOffload fun o => { o with d2hOperations := operations }
      finishD2hOperation operation
      pollD2hOperations ready

/-- `abort_d2h` on every block of a batch. -/
def abortD2hBatch (batch : MixedD2HBatch ι κ) : CoordM ι κ μ Unit := do
  PyM.forEach (fun b => onIndex (abortD2h b)) batch.blocks
  hostFree batch.hostIndices

def abortPendingD2h (current : MixedD2HBatch ι κ) : CoordM ι κ μ Unit := do
  let pending := (← PyM.get).offload.pendingD2hBatches
  modifyOffload fun o => { o with pendingD2hBatches := [] }
  abortD2hBatch current
  PyM.forEach abortD2hBatch pending

variable (cfg : CoordinatorConfig ι κ μ)

/-- `_payload_device_slots` and `_recurrent_payload`. -/
def checkDevicePayload (c : PrefixCacheCoordinator ι κ μ)
    (b : MixedBlock ι κ) : Except PyError Unit :=
  let payload := (c.prefixCache.deref b).payload
  if cfg.managers.deviceSlotCount payload.kvPayload c.managers ≠ some cfg.blockSize then
    .error (.runtimeError "Prefix offload block has inconsistent device-slot payload")
  else if payload.recurrentPayload.resident = false then
    .error (.runtimeError "Mixed recurrent snapshot layers do not match state_spec")
  else .ok ()

def submitReservedD2hBatch (batch : MixedD2HBatch ι κ) :
    CoordM ι κ μ Unit := do
  let c ← PyM.get
  let _ ← PyM.lift (batch.blocks.mapM (checkDevicePayload cfg c))
  let k ← nextDeviceCall
  PyM.raiseIf ((cfg.fault k).isSome = true) (.runtimeError "device")
  modifyOffload fun o => { o with d2hOperations := o.d2hOperations ++ [batch] }

def startNextD2hBatch : CoordM ι κ μ Unit := do
  let o := (← PyM.get).offload
  if o.d2hOperations.isEmpty = false then
    pure ()
  else
    match o.pendingD2hBatches with
    | [] => pure ()
    | batch :: batches => do
      modifyOffload fun o => { o with pendingD2hBatches := batches }
      PyM.tryExcept (submitReservedD2hBatch cfg batch) fun e => do
        abortPendingD2h batch
        PyM.raise e

/-- The staging batches of `submit_d2h`. -/
def stagingBatches (blocks : List (MixedBlock ι κ))
    (hostIndices : List Nat) : List (MixedD2HBatch ι κ) :=
  (blocks.toChunks cfg.d2hStagingBlocks).zipWith MixedD2HBatch.mk
    (hostIndices.toChunks cfg.d2hStagingBlocks)

def submitD2h (blocks : List (MixedBlock ι κ)) :
    CoordM ι κ μ Unit :=
  if blocks.isEmpty then
    pure ()
  else do
    let k ← nextDeviceCall
    PyM.raiseIf (cfg.fault k = some .capturing)
      (.runtimeError "Prefix D2H submission is forbidden during graph capture.")
    let hostIndices ← hostAllocate blocks.length
    let (begun, error) ← PyM.untilError (fun b => onIndex (beginD2h b)) blocks
    match error with
    | some e => do
      PyM.forEach (fun b => onIndex (abortD2h b)) begun.reverse
      hostFree hostIndices
      PyM.raise e
    | none => do
      modifyOffload fun o =>
        { o with
          pendingD2hBatches := o.pendingD2hBatches ++ stagingBatches cfg blocks hostIndices }
      startNextD2hBatch cfg

/-- `poll_d2h`, when the first `ready` operations are complete. -/
def pollD2h (ready : Nat) : CoordM ι κ μ Unit := do
  pollD2hOperations ready
  startNextD2hBatch cfg

/-- `poll_h2d`, when the first `ready` operations are complete. -/
def pollH2d : Nat → CoordM ι κ μ Unit
  | 0 => pure ()
  | ready + 1 => do
    match (← PyM.get).offload.h2dOperations with
    | [] => pure ()
    | blocks :: operations => do
      modifyOffload fun o => { o with h2dOperations := operations }
      PyM.forEach (fun b => do
        onIndex (finishH2d b)
        modifyOffload fun o => { o with h2dByBlockId := o.h2dByBlockId.erase b.stableBlockId })
        blocks
      pollH2d ready

def pollOffload : CoordM ι κ μ Unit :=
  if cfg.offloadEnabled then do
    let k ← nextDeviceCall
    pollD2h cfg (cfg.d2hReady k)
    pollH2d (cfg.h2dReady k)
  else
    pure ()

/-- `wait_oldest_d2h`. -/
def waitOldestD2h : CoordM ι κ μ Bool := do
  startNextD2hBatch cfg
  if (← PyM.get).offload.d2hOperations.isEmpty then
    return false
  else do
    let k ← nextDeviceCall
    pollD2h cfg (max 1 (cfg.d2hReady k))
    return true

/-- `d2h_operations[0]`. -/
def oldestD2h : CoordM ι κ μ (MixedD2HBatch ι κ) := do
  match (← PyM.get).offload.d2hOperations with
  | [] => PyM.raise (.indexError "deque index out of range")
  | operation :: _ => return operation

/-- The batch in flight and the batches staged behind it. -/
def queuedBatches (c : PrefixCacheCoordinator ι κ μ) : List (MixedD2HBatch ι κ) :=
  c.offload.d2hOperations ++ c.offload.pendingD2hBatches

/-- The loop of `synchronize_all` over the queued D2H work. -/
def drainD2h (cfg : CoordinatorConfig ι κ μ) : Nat → CoordM ι κ μ Unit
  | 0 => do
    let c ← PyM.get
    PyM.raiseIf ((queuedBatches c).isEmpty = false) .outOfFuel
  | fuel + 1 => do
    let c ← PyM.get
    if (queuedBatches c).isEmpty then
      pure ()
    else do
      startNextD2hBatch cfg
      let _ ← oldestD2h
      let k ← nextDeviceCall
      pollD2h cfg (max 1 (cfg.d2hReady k))
      drainD2h cfg fuel

/-- `synchronize_all`. -/
def synchronizeAll : CoordM ι κ μ Unit := do
  let c ← PyM.get
  drainD2h cfg (queuedBatches c).length
  pollH2d (← PyM.get).offload.h2dOperations.length

def buildPrefixRecurrentPayload (cfg : CoordinatorConfig ι κ μ) (seqId tokenCount : Nat) :
    CoordM ι κ μ RecurrentPrefixPayload := do
  let nbytes ← onManagers (cfg.managers.buildPrefixRecurrentPayload seqId tokenCount)
  let objectId := (← PyM.get).nextSnapshotId
  PyM.modify fun c =>
    { c with nextSnapshotId := objectId + 1, liveSnapshots := insert objectId c.liveSnapshots }
  return { objectId := objectId, nbytes := nbytes }

def freePrefixRecurrentPayload (payload : RecurrentPrefixPayload) : CoordM ι κ μ Unit :=
  PyM.modify fun c => { c with liveSnapshots := c.liveSnapshots.erase payload.objectId }

def allocateDeviceRecurrent : CoordM ι κ μ Unit :=
  PyM.forEach (fun b => do
    let payload := ((← PyM.get).prefixCache.deref b).payload
    PyM.raiseIf (payload.recurrentPayload.resident = true)
      (.runtimeError "Host-only mixed prefix block still owns GPU recurrent tensors.")
    setPayload b fun payload =>
      { payload with recurrentPayload := { payload.recurrentPayload with resident := true } })
    blocks

def freeDeviceRecurrent : CoordM ι κ μ Unit := do
  let payload := ((← PyM.get).prefixCache.deref b).payload
  PyM.raiseIf (payload.recurrentPayload.resident = false)
    (.runtimeError "Mixed recurrent snapshot layers do not match state_spec")
  setPayload b fun payload =>
    { payload with recurrentPayload := { payload.recurrentPayload with resident := false } }

def freeDeviceBlock (b : MixedBlock ι κ) : CoordM ι κ μ Unit := do
  let payload := ((← PyM.get).prefixCache.deref b).payload
  onManagers (cfg.managers.freePrefixKvPayloadDevice payload.kvPayload)
  freeDeviceRecurrent b

/-- The byte snapshot after the removal of `blocks`. -/
def patchRecurrentBytes : CoordM ι κ μ Unit :=
  PyM.modify fun c =>
    match c.recurrentBytesCache with
    | none => c
    | some cached =>
      if cached.insertEpoch = c.prefixCache.epochs.insert ∧
          cached.removeEpoch + blocks.length = c.prefixCache.epochs.remove then
        { c with
          recurrentBytesCache := some
            { insertEpoch := c.prefixCache.epochs.insert
              removeEpoch := c.prefixCache.epochs.remove
              total := cached.total - (blocks.map fun b => (b.payload.recurrentBytes : Int)).sum } }
      else c

/-- `_free_blocks`. -/
def freeBlocks (blocks : List (MixedBlock ι κ)) :
    CoordM ι κ μ Unit := do
  PyM.modify fun c =>
    { c with
      writeThroughCandidates :=
        blocks.foldl (fun d b => d.erase b.stableBlockId) c.writeThroughCandidates }
  patchRecurrentBytes blocks
  if cfg.offloadEnabled then do
    PyM.forEach (fun b => do
      let block := (← PyM.get).prefixCache.deref b
      if block.residency.devicePresent then
        releasing (freeDeviceBlock cfg b)
      else
        pure ()
      freePrefixRecurrentPayload block.payload.recurrentPayload) blocks
    let c ← PyM.get
    let hostBlocks := blocks.filter fun b => (c.prefixCache.deref b).residency.hostPresent
    if hostBlocks.isEmpty then
      pure ()
    else
      releasing (freeHostPayloads hostBlocks)
  else
    PyM.forEach (fun b => do
      releasing (onManagers (cfg.managers.freePrefixKvPayload b.payload.kvPayload))
      freePrefixRecurrentPayload b.payload.recurrentPayload) blocks

def liveRecurrentBytes : CoordM ι κ μ Int := do
  let c ← PyM.get
  let epochs := c.prefixCache.epochs
  let rescan : CoordM ι κ μ Int := do
    let total := (c.prefixCache.blocks.values.map fun b => (b.payload.recurrentBytes : Int)).sum
    PyM.modify fun c =>
      { c with recurrentBytesCache := some ⟨epochs.insert, epochs.remove, total⟩ }
    return total
  match c.recurrentBytesCache with
  | none => rescan
  | some cached =>
    if cached.insertEpoch = epochs.insert ∧ cached.removeEpoch = epochs.remove then
      return cached.total
    else
      rescan

variable (c : PrefixCacheCoordinator ι κ μ)

def queuedD2h : Nat :=
  c.offload.d2hOperations.length + c.offload.pendingD2hBatches.length

/-- `evict_host_until_weight` and the return of what it evicted. -/
def evictHost (neededWeight : Int)
    (blockWeight : MixedBlock ι κ → Int) : CoordM ι κ μ Int := do
  let evicted ← onIndex (evictHostUntilWeight neededWeight blockWeight)
  freeBlocks cfg evicted
  return (evicted.map blockWeight).sum

/-- The loop of `_evict_host_blocks`. -/
def evictHostLoop (cfg : CoordinatorConfig ι κ μ) (neededWeight : Int)
    (blockWeight : MixedBlock ι κ → Int) : Nat → Int → CoordM ι κ μ Bool
  | 0, _ => PyM.raise .outOfFuel
  | fuel + 1, freedWeight =>
    if neededWeight ≤ freedWeight then
      return true
    else do
      pollOffload cfg
      let host ← evictHost cfg (neededWeight - freedWeight) blockWeight
      let freedWeight := freedWeight + host
      if neededWeight ≤ freedWeight then
        return true
      else do
        let demoted ← onIndex
          (demoteDeviceUntilWeight (neededWeight - freedWeight) blockWeight)
        PyM.forEach (freeDeviceBlock cfg) demoted
        let newly ← evictHost cfg (neededWeight - freedWeight) blockWeight
        let freedWeight := freedWeight + newly
        if neededWeight ≤ freedWeight then
          return true
        else if ← waitOldestD2h cfg then
          evictHostLoop cfg neededWeight blockWeight fuel freedWeight
        else
          return false

def recurrentWeight : Int := b.payload.recurrentBytes

def evictHostBlocks (neededBlocks : Int)
    (neededRecurrentBytes : Int := 0) : CoordM ι κ μ Bool := do
  PyM.raiseIf (cfg.offloadEnabled = false)
    (.runtimeError "Mixed host eviction requested without an offload controller.")
  let fuel := queuedD2h (← PyM.get) + 1
  if neededRecurrentBytes = 0 then
    evictHostLoop cfg neededBlocks (fun _ => 1) fuel 0
  else
    evictHostLoop cfg neededRecurrentBytes recurrentWeight fuel 0

/-- The logical-capacity half of `_evict_for_insert`. -/
def evictForBlocks (neededBlocks : Int) : CoordM ι κ μ Bool := do
  match cfg.index.maxBlocks with
  | none => return true
  | some maxBlocks => do
    let c ← PyM.get
    let overCapacity : Int :=
      c.prefixCache.blocks.size + c.pendingBlockIds.card + neededBlocks - maxBlocks
    if overCapacity ≤ 0 then
      return true
    else if cfg.offloadEnabled then
      evictHostBlocks cfg overCapacity
    else do
      let evicted ← onIndex (evictUntilFreeable overCapacity)
      freeBlocks cfg evicted
      return (evicted.length : Int) = overCapacity

/-- The snapshot-byte half of `_evict_for_insert`. -/
def evictForBytes (incomingRecurrentBytes : Int) :
    CoordM ι κ μ Bool := do
  let live ← liveRecurrentBytes
  let missingBytes : Int :=
    live + (← PyM.get).pendingRecurrentBytes + incomingRecurrentBytes - cfg.maxRecurrentBytes
  if missingBytes ≤ 0 then
    return true
  else if cfg.offloadEnabled then
    evictHostBlocks cfg 0 missingBytes
  else do
    let evicted ← onIndex (evictUntilWeight missingBytes recurrentWeight)
    freeBlocks cfg evicted
    return missingBytes ≤ (evicted.map recurrentWeight).sum

def evictForInsert (neededBlocks incomingRecurrentBytes : Int) :
    CoordM ι κ μ Bool := do
  PyM.raiseIf (incomingRecurrentBytes < 0) (.valueError "incoming_recurrent_bytes must be >= 0")
  PyM.raiseIf ((cfg.maxRecurrentBytes : Int) < incomingRecurrentBytes)
    (.runtimeError "Mixed prefix recurrent payload exceeds the configured byte budget")
  if ← evictForBlocks cfg neededBlocks then
    evictForBytes cfg incomingRecurrentBytes
  else
    return false

/-- The demotion loop of `evict_for_slots`. -/
def demoteForSlots (cfg : CoordinatorConfig ι κ μ) (neededBlocks : Nat) : Nat → Nat →
    CoordM ι κ μ Nat
  | 0, _ => PyM.raise .outOfFuel
  | fuel + 1, freedBlocks =>
    if neededBlocks ≤ freedBlocks then
      return freedBlocks
    else do
      pollOffload cfg
      let demoted ← onIndex
        (demoteDeviceUntilWeight (neededBlocks - freedBlocks) fun _ => 1)
      PyM.forEach (freeDeviceBlock cfg) demoted
      let freedBlocks := freedBlocks + demoted.length
      if neededBlocks ≤ freedBlocks then
        return freedBlocks
      else if ← waitOldestD2h cfg then
        demoteForSlots cfg neededBlocks fuel freedBlocks
      else
        return freedBlocks

def evictForSlots (neededSlots : Nat) : CoordM ι κ μ Unit :=
  if neededSlots = 0 then
    pure ()
  else do
    let neededBlocks := (neededSlots + cfg.blockSize - 1) / cfg.blockSize
    let freedBlocks ←
      if cfg.offloadEnabled then do
        demoteForSlots cfg neededBlocks (queuedD2h (← PyM.get) + 1) 0
      else do
        let evicted ← onIndex (evictUntilFreeable neededBlocks)
        freeBlocks cfg evicted
        pure evicted.length
    PyM.raiseIf (freedBlocks ≠ neededBlocks)
      (.runtimeError "Mixed prefix cache could not evict enough blocks for KV allocation")

def reservePendingBlock (stableBlockId : ι)
    (recurrentBytes : Nat) : CoordM ι κ μ Bool := do
  if stableBlockId ∈ (← PyM.get).pendingBlockIds then
    return false
  else if ← evictForInsert cfg 1 recurrentBytes then do
    PyM.modify fun c =>
      { c with
        pendingBlockIds := insert stableBlockId c.pendingBlockIds
        pendingRecurrentBytes := c.pendingRecurrentBytes + recurrentBytes }
    return true
  else
    return false

def releasePendingReservation (stableBlockId : ι) (recurrentBytes : Nat) : CoordM ι κ μ Unit := do
  PyM.raiseIf (stableBlockId ∉ (← PyM.get).pendingBlockIds)
    (.runtimeError "Mixed prefix pending reservation is missing during release.")
  PyM.modify fun c =>
    { c with
      pendingBlockIds := c.pendingBlockIds.erase stableBlockId
      pendingRecurrentBytes := c.pendingRecurrentBytes - recurrentBytes }
  PyM.raiseIf ((← PyM.get).pendingRecurrentBytes < 0)
    (.runtimeError "Mixed prefix pending recurrent byte count became negative.")

def dropPendingBlock (pending : PendingMixedPrefixBlock ι κ) : CoordM ι κ μ Unit := do
  freePrefixRecurrentPayload pending.payload.recurrentPayload
  releasePendingReservation pending.stableBlockId pending.payload.recurrentBytes

/-- Whether the chain attached to a sequence has `block` at its own place. -/
def attachedAt (attached : List (MixedBlock ι κ)) (block : MixedBlock ι κ) : Bool :=
  attached[block.logicalBlockIdx]?.any fun b => b.stableBlockId = block.stableBlockId

variable (seqId : Nat)

def holdMaterializedRef (block : MixedBlock ι κ) : CoordM ι κ μ Unit := do
  let c ← PyM.get
  let attached := (c.seqIdToPrefixBlocks.get? seqId).getD []
  let materialized := (c.seqIdToMaterializedBlocks.get? seqId).getD .empty
  if attachedAt attached block || materialized.contains block.stableBlockId then
    pure ()
  else do
    onIndex (acquireBlockRef block)
    PyM.modify fun c =>
      { c with
        seqIdToMaterializedBlocks := c.seqIdToMaterializedBlocks.set seqId
          (((c.seqIdToMaterializedBlocks.get? seqId).getD .empty).set block.stableBlockId block) }

def runtimeState (seqId : Nat) : MixedPrefixRuntimeState ι :=
  (c.runtimeStates.get? seqId).getD {}

def setRuntimeState (f : MixedPrefixRuntimeState ι → MixedPrefixRuntimeState ι) :
    CoordM ι κ μ Unit :=
  PyM.modify fun c =>
    { c with runtimeStates := c.runtimeStates.set seqId (f (runtimeState c seqId)) }

/-- `state.parent_block_id = stable_block_id` and `state.next_logical_block_idx += 1`. -/
def advance (stableBlockId : ι) : CoordM ι κ μ Unit :=
  setRuntimeState seqId fun state =>
    { state with
      parentBlockId := some stableBlockId
      nextLogicalBlockIdx := state.nextLogicalBlockIdx + 1 }

def buildSnapshot (seqId blockEnd : Nat)
    (finish : RecurrentPrefixPayload → CoordM ι κ μ Unit) : CoordM ι κ μ Unit := do
  let recurrentPayload ← buildPrefixRecurrentPayload cfg seqId blockEnd
  PyM.tryExcept (do
    PyM.raiseIf (recurrentPayload.nbytes ≠ cfg.recurrentSnapshotNbytes)
      (.runtimeError "Mixed prefix recurrent snapshot bytes differ from the model declaration")
    finish recurrentPayload) fun e => do
      freePrefixRecurrentPayload recurrentPayload
      PyM.raise e

def buildPendingBlock (seqId : Nat) (stableBlockId : ι)
    (state : MixedPrefixRuntimeState ι) (blockTokens : List Int) : CoordM ι κ μ Unit := do
  let blockStart := state.nextLogicalBlockIdx * cfg.blockSize
  let blockEnd := blockStart + cfg.blockSize
  let kvPayload ← onManagers (cfg.managers.buildPrefixKvPayload seqId blockStart blockEnd)
  buildSnapshot cfg seqId blockEnd fun recurrentPayload => do
    let kvBytes ← onManagers (cfg.managers.prefixKvPayloadNbytes kvPayload)
    let pending : PendingMixedPrefixBlock ι κ :=
      { stableBlockId := stableBlockId
        parentBlockId := state.parentBlockId
        logicalBlockIdx := state.nextLogicalBlockIdx
        tokenIds := blockTokens
        payload :=
          { kvPayload := kvPayload
            recurrentPayload := recurrentPayload
            tokenCount := cfg.blockSize
            accountingBytes := kvBytes + cfg.recurrentSnapshotNbytes
            recurrentBytes := cfg.recurrentSnapshotNbytes } }
    PyM.modify fun c =>
      { c with
        pendingBlocks := c.pendingBlocks.set seqId
          ((c.pendingBlocks.get? seqId).getD [] ++ [pending]) }

/-- `add_block` for a block that is neither indexed nor reserved. -/
def addNewBlock (seqId : Nat) (stableBlockId : ι)
    (state : MixedPrefixRuntimeState ι) (blockTokens : List Int) : CoordM ι κ μ Unit := do
  if ← reservePendingBlock cfg stableBlockId cfg.recurrentSnapshotNbytes then do
    PyM.tryExcept (buildPendingBlock cfg seqId stableBlockId state blockTokens) fun e => do
      releasePendingReservation stableBlockId cfg.recurrentSnapshotNbytes
      PyM.raise e
    advance seqId stableBlockId
  else
    PyM.modify fun c => { c with capacityLimitedSeqIds := insert seqId c.capacityLimitedSeqIds }

def addBlock (seqId : Nat) (blockTokens : List Int) :
    CoordM ι κ μ Unit := do
  let c ← PyM.get
  let state := runtimeState c seqId
  let stableBlockId := cfg.index.hashBlock blockTokens state.parentBlockId
  match c.prefixCache.blocks.get? stableBlockId with
  | some existing => do
    holdMaterializedRef seqId existing
    advance seqId stableBlockId
  | none =>
    if stableBlockId ∈ c.pendingBlockIds then do
      let duplicateRefs := (c.pendingDuplicateRefs.get? seqId).getD []
      PyM.modify fun c =>
        { c with
          pendingDuplicateRefs := c.pendingDuplicateRefs.set seqId
            (if stableBlockId ∈ duplicateRefs then duplicateRefs
             else duplicateRefs ++ [stableBlockId]) }
      advance seqId stableBlockId
    else
      addNewBlock cfg seqId stableBlockId state blockTokens

/-- The full blocks of `tokenIds`. -/
def recordFullBlocks (seqId : Nat) (tokenIds : List Int) :
    CoordM ι κ μ Unit := do
  let count := tokenIds.length / cfg.blockSize
  PyM.forEach (fun i => addBlock cfg seqId ((tokenIds.drop (i * cfg.blockSize)).take cfg.blockSize))
    (List.range count)
  setRuntimeState seqId fun state =>
    { state with pendingTokens := tokenIds.drop (count * cfg.blockSize) }

variable (seq : MixedSequence ι)

def initRuntimeState : CoordM ι κ μ Unit :=
  PyM.modify fun c =>
    { c with
      runtimeStates :=
        match c.runtimeStates.get? seq.seqId with
        | some _ => c.runtimeStates
        | none => c.runtimeStates.set seq.seqId
            { parentBlockId := seq.prefixCacheHitLastBlockId
              nextLogicalBlockIdx := seq.prefixCacheHitBlockCount }
      pendingBlocks := c.pendingBlocks.set seq.seqId ((c.pendingBlocks.get? seq.seqId).getD []) }

def recordTokens (tokenIds : List Int) :
    CoordM ι κ μ Unit :=
  if seq.multimodal || tokenIds.isEmpty then
    pure ()
  else do
    initRuntimeState seq
    let pendingTokens := (runtimeState (← PyM.get) seq.seqId).pendingTokens
    if pendingTokens.isEmpty then
      recordFullBlocks cfg seq.seqId tokenIds
    else do
      let take := min (cfg.blockSize - pendingTokens.length) tokenIds.length
      let pendingTokens := pendingTokens ++ tokenIds.take take
      setRuntimeState seq.seqId fun state => { state with pendingTokens := pendingTokens }
      if pendingTokens.length = cfg.blockSize then do
        addBlock cfg seq.seqId pendingTokens
        setRuntimeState seq.seqId fun state => { state with pendingTokens := [] }
        recordFullBlocks cfg seq.seqId (tokenIds.drop take)
      else
        pure ()

/-- One sequence of `record_step_tokens`. -/
def recordSeqTokens (isPrefill : Bool) (seq : MixedSequence ι) :
    CoordM ι κ μ Unit := do
  if seq.seqId ∈ (← PyM.get).capacityLimitedSeqIds then
    pure ()
  else if isPrefill then
    if seq.currentChunkSize = 0 then
      pure ()
    else do
      let start := seq.numPrefilledTokens
      let stop := start + seq.currentChunkSize
      let boundary := start + (cfg.blockSize - start % cfg.blockSize)
      PyM.raiseIf (boundary < stop) (.runtimeError
        "Mixed prefix prefill chunks must not cross recurrent snapshot boundaries")
      recordTokens cfg seq
        (if seq.currentChunkSize < seq.tokenIds.length then
          (seq.tokenIds.drop start).take seq.currentChunkSize
         else seq.tokenIds)
  else
    recordTokens cfg seq [seq.decodeInputToken]

variable (seqs : List (MixedSequence ι))

def recordStepTokens
    (isPrefill : Bool) : CoordM ι κ μ Unit :=
  PyM.forEach (recordSeqTokens cfg isPrefill) seqs

/-- The locals that the handlers of `commit_pending_blocks` read. -/
structure CommitLocals where
  insertedNew : Bool := false
  recurrentReleased : Bool := false

def setMaterialized (f : Dict ι (MixedBlock ι κ) → Dict ι (MixedBlock ι κ)) :
    CoordM ι κ μ Unit :=
  PyM.modify fun c =>
    { c with
      seqIdToMaterializedBlocks := c.seqIdToMaterializedBlocks.set seqId
        (f ((c.seqIdToMaterializedBlocks.get? seqId).getD .empty)) }

def newBlock (objectId : Nat) (pending : PendingMixedPrefixBlock ι κ) : MixedBlock ι κ :=
  { objectId := objectId
    stableBlockId := pending.stableBlockId
    parentBlockId := pending.parentBlockId
    logicalBlockIdx := pending.logicalBlockIdx
    payload := pending.payload
    tokenIds := pending.tokenIds
    refCount := 1 }

def rollbackCommit (seqId : Nat)
    (pending : PendingMixedPrefixBlock ι κ) (inserted : MixedBlock ι κ) : CoordM ι κ μ Unit := do
  onManagers (cfg.managers.rollbackMaterializedPrefixKvPayload seqId pending.payload.kvPayload)
  setMaterialized seqId (·.erase inserted.stableBlockId)
  onIndex (setBlockRefCount inserted 0)
  onIndex (rollbackInsertedLeaf inserted)
  freePrefixRecurrentPayload pending.payload.recurrentPayload

/-- The insertion of one pending block. -/
def insertPendingBlock (seqId : Nat)
    (pending : PendingMixedPrefixBlock ι κ) :
    PyM (PrefixCacheCoordinator ι κ μ × CommitLocals) Unit := do
  let c := (← PyM.get).1
  PyM.raiseIf (c.prefixCache.blocks.contains pending.stableBlockId = true) (.runtimeError
    "Mixed prefix block became duplicate after unique pending reservation.")
  let block := newBlock c.nextObjectId pending
  PyM.outer (PyM.modify fun c => { c with nextObjectId := c.nextObjectId + 1 })
  let inserted ← PyM.outer (onIndex (insertBlock cfg.index block))
  PyM.raiseIf (inserted.objectId ≠ block.objectId)
    (.runtimeError "Mixed prefix insertion returned an unexpected duplicate block.")
  PyM.modify fun t => (t.1, { t.2 with insertedNew := true })
  PyM.outer (setMaterialized seqId (·.set inserted.stableBlockId inserted))
  PyM.tryExcept
    (PyM.outer
      (onManagers (cfg.managers.markMaterializedPrefixKvPayload seqId pending.payload.kvPayload)))
    fun e => do
      PyM.outer (rollbackCommit cfg seqId pending inserted)
      PyM.modify fun t => (t.1, { insertedNew := false, recurrentReleased := true })
      PyM.raise e

/-- The outer handler of `commit_pending_blocks`. -/
def abandonCommit (locals : CommitLocals) (pending : PendingMixedPrefixBlock ι κ)
    (unprocessed : List (PendingMixedPrefixBlock ι κ)) : CoordM ι κ μ Unit := do
  if !locals.insertedNew && !locals.recurrentReleased then
    freePrefixRecurrentPayload pending.payload.recurrentPayload
  else
    pure ()
  PyM.forEach dropPendingBlock unprocessed
  PyM.modify fun c =>
    { c with
      pendingDuplicateRefs := c.pendingDuplicateRefs.erase seqId
      seqIdToMaterializedBlocks :=
        if ((c.seqIdToMaterializedBlocks.get? seqId).getD .empty).size = 0 then
          c.seqIdToMaterializedBlocks.erase seqId
        else c.seqIdToMaterializedBlocks }

/-- One pending block of `commit_pending_blocks`. -/
def commitPendingBlock (seqId : Nat)
    (pending : PendingMixedPrefixBlock ι κ) (unprocessed : List (PendingMixedPrefixBlock ι κ)) :
    CoordM ι κ μ Unit :=
  PyM.tryFinally
    (PyM.withLocals ({} : CommitLocals)
      (PyM.tryExcept (insertPendingBlock cfg seqId pending) fun e => do
        PyM.outer (abandonCommit seqId (← PyM.get).2 pending unprocessed)
        PyM.raise e))
    (releasePendingReservation pending.stableBlockId pending.payload.recurrentBytes)

def commitLoop (cfg : CoordinatorConfig ι κ μ) (seqId : Nat) :
    List (PendingMixedPrefixBlock ι κ) → CoordM ι κ μ Unit
  | [] => pure ()
  | pending :: unprocessed => do
    commitPendingBlock cfg seqId pending unprocessed
    commitLoop cfg seqId unprocessed

def holdDuplicate (stableBlockId : ι) : CoordM ι κ μ Unit := do
  match (← PyM.get).prefixCache.blocks.get? stableBlockId with
  | none => PyM.raise (.runtimeError
      "Mixed prefix duplicate reservation was not committed by its owner.")
  | some block => holdMaterializedRef seqId block

/-- One sequence of `commit_pending_blocks`. -/
def commitSeqBlocks (seqId : Nat) : CoordM ι κ μ Unit := do
  let pending := ((← PyM.get).pendingBlocks.get? seqId).getD []
  PyM.modify fun c => { c with pendingBlocks := c.pendingBlocks.erase seqId }
  setMaterialized seqId id
  commitLoop cfg seqId pending
  let duplicateRefs := ((← PyM.get).pendingDuplicateRefs.get? seqId).getD []
  PyM.modify fun c => { c with pendingDuplicateRefs := c.pendingDuplicateRefs.erase seqId }
  PyM.forEach (holdDuplicate seqId) duplicateRefs

def commitPendingBlocks :
    CoordM ι κ μ Unit :=
  PyM.forEach (fun seq => commitSeqBlocks cfg seq.seqId) seqs

/-- `submit_h2d`. -/
def submitH2d (blocks : List (MixedBlock ι κ)) :
    CoordM ι κ μ Unit := do
  PyM.raiseIf (blocks.isEmpty = true)
    (.valueError "Prefix H2D submission requires at least one block.")
  let k ← nextDeviceCall
  PyM.raiseIf (cfg.fault k = some .capturing)
    (.runtimeError "Prefix H2D submission is forbidden during graph capture.")
  let c ← PyM.get
  let _ ← PyM.lift (blocks.mapM (checkDevicePayload cfg c))
  let _ ← PyM.lift (blocks.mapM (payloadHostIndex c.prefixCache))
  PyM.raiseIf (cfg.fault k = some .events)
    (.runtimeError "Prefix cache offload could not create an event")
  let (begun, error) ← PyM.untilError (fun b => onIndex (beginH2d b)) blocks
  let abort (e : PyError) : CoordM ι κ μ Unit := do
    PyM.forEach (fun b => onIndex (abortH2d b)) begun.reverse
    PyM.raise e
  match error with
  | some e => abort e
  | none =>
    if cfg.fault k = some .copy then
      abort (.runtimeError "device")
    else
      modifyOffload fun o =>
        { o with
          h2dOperations := o.h2dOperations ++ [blocks]
          h2dByBlockId := o.h2dByBlockId ∪ (blocks.map (·.stableBlockId)).toFinset }

def hostOnlyBlocks (cfg : CoordinatorConfig ι κ μ) (offload : MixedPrefixOffloadController ι κ) :
    List (MixedBlock ι κ) → Bool → Except PyError (List (MixedBlock ι κ))
  | [], _ => .ok []
  | block :: chain, sawHostOnly => do
    block.residency.validate
    if block.residency.devicePresent = false then
      if cfg.offloadEnabled = false ∨ block.residency.hostPresent = false then
        .error (.runtimeError
          "Mixed prefix lookup returned a non-device block that cannot be promoted.")
      else if block.residency.transfer.isSome ∨ block.payload.hostBlockIndex.isNone then
        .error (.runtimeError "Host-only mixed prefix block has invalid transfer state.")
      else
        return block :: (← hostOnlyBlocks cfg offload chain true)
    else if sawHostOnly then
      .error (.runtimeError "Mixed prefix device residency is not root-contiguous.")
    else if block.residency.transfer = some .h2d ∧ block.stableBlockId ∉ offload.h2dByBlockId then
      .error (.runtimeError "Mixed prefix H2D block has no tracked operation.")
    else
      hostOnlyBlocks cfg offload chain sawHostOnly

/-- What the handler of `_attach_seq` reads. -/
structure AttachLocals where
  submitted : Bool := false
  attached : Bool := false

def promoteBlocks (hostOnly : List (MixedBlock ι κ)) :
    CoordM ι κ μ Unit := do
  let k ← nextDeviceCall
  PyM.raiseIf (cfg.fault k = some .capturing)
    (.runtimeError "Mixed prefix H2D is forbidden during graph capture.")
  let free := cfg.managers.numFreeSlots (← PyM.get).managers
  evictForSlots cfg (hostOnly.length * cfg.blockSize - free)
  onManagers (cfg.managers.allocatePrefixKvPayloadsDevice (hostOnly.map (·.payload.kvPayload)))
  allocateDeviceRecurrent hostOnly
  submitH2d cfg hostOnly

def attachPayloads (seqId : Nat) (chain : List (MixedBlock ι κ)) :
    PyM (PrefixCacheCoordinator ι κ μ × AttachLocals) Unit := do
  PyM.outer (onManagers
    (cfg.managers.attachPrefixKvPayloads seqId (chain.map (·.payload.kvPayload))))
  PyM.modify fun t => (t.1, { t.2 with attached := true })
  match chain.getLast? with
  | none => pure ()
  | some last => do
    let c := (← PyM.get).1
    PyM.outer (onManagers (cfg.managers.attachPrefixRecurrentPayload seqId
      (c.prefixCache.deref last).payload.recurrentPayload
      (decide (last.stableBlockId ∈ c.offload.h2dByBlockId))))

/-- The body of the `try` in `_attach_seq`. -/
def attachChain (seqId : Nat) (chain hostOnly : List (MixedBlock ι κ)) :
    PyM (PrefixCacheCoordinator ι κ μ × AttachLocals) Unit := do
  if hostOnly.isEmpty then
    pure ()
  else do
    PyM.outer (promoteBlocks cfg hostOnly)
    PyM.modify fun t => (t.1, { t.2 with submitted := true })
  attachPayloads cfg seqId chain

def undoPromotion (b : MixedBlock ι κ) : CoordM ι κ μ Unit := do
  let c ← PyM.get
  let payload := (c.prefixCache.deref b).payload
  if payload.recurrentPayload.resident then
    freeDeviceRecurrent b
  else
    pure ()
  if (cfg.managers.deviceSlotCount payload.kvPayload c.managers).isSome then
    onManagers (cfg.managers.freePrefixKvPayloadDevice payload.kvPayload)
  else
    pure ()

/-- The handler of `_attach_seq`. -/
def rollbackAttach (seqId : Nat)
    (chain hostOnly : List (MixedBlock ι κ)) (rowPreexisted : Bool) (locals : AttachLocals)
    (e : PyError) : CoordM ι κ μ Unit := do
  let rollbackError ←
    if locals.attached then
      PyM.attempt (onManagers (cfg.managers.rollbackPrefixKvAttach seqId
        (chain.map (·.payload.kvPayload)) rowPreexisted))
    else
      pure none
  PyM.forEach (fun b => onIndex (releaseBlockRef b)) chain
  if hostOnly.isEmpty || locals.submitted then
    pure ()
  else
    PyM.forEach (undoPromotion cfg) hostOnly
  match rollbackError with
  | some _ => PyM.raise (.runtimeError "Mixed prefix attach rollback failed")
  | none => PyM.raise e

def attachSeq : CoordM ι κ μ Unit := do
  let c ← PyM.get
  if seq.prefixCacheHitLen = 0 ∨ c.seqIdToPrefixBlocks.contains seq.seqId = true then
    pure ()
  else
    match seq.prefixCacheHitLastBlockId with
    | none => PyM.raise (.runtimeError "mixed prefix hit length but no last block id.")
    | some lastBlockId => do
      PyM.raiseIf (seq.prefixCacheHitLen % cfg.blockSize ≠ 0)
        (.runtimeError "mixed prefix hit length is not block aligned")
      let chain ← PyM.lift (c.prefixCache.getChain lastBlockId seq.prefixCacheHitBlockCount)
      PyM.raiseIf (chain.length * cfg.blockSize ≠ seq.prefixCacheHitLen)
        (.runtimeError "Mixed prefix cache chain length does not match scheduler metadata")
      let hostOnly ← PyM.lift (hostOnlyBlocks cfg c.offload chain false)
      let rowPreexisted ← onManagers (cfg.managers.validatePrefixKvAttach seq.seqId)
      PyM.forEach (fun b => onIndex (acquireBlockRef b)) chain
      PyM.withLocals ({} : AttachLocals)
        (PyM.tryExcept (attachChain cfg seq.seqId chain hostOnly) fun e => do
          PyM.outer (rollbackAttach cfg seq.seqId chain hostOnly rowPreexisted (← PyM.get).2 e))
      PyM.modify fun c =>
        { c with seqIdToPrefixBlocks := c.seqIdToPrefixBlocks.set seq.seqId chain }
      onIndex (touchChain chain)

def attachPrefixCacheHits :
    CoordM ι κ μ Unit := do
  pollOffload cfg
  PyM.forEach (attachSeq cfg) seqs

def ensureHostCapacity (neededBlocks : Nat) :
    CoordM ι κ μ Unit := do
  let free := (← PyM.get).offload.freeIndices.length
  if neededBlocks ≤ free then
    pure ()
  else do
    let evicted ← evictHostBlocks cfg (neededBlocks - free)
    PyM.raiseIf (evicted = false)
      (.runtimeError "Mixed prefix host pool cannot preserve write-through residency")

def scheduleWriteThrough
    (newlyUnreferenced : List (MixedBlock ι κ)) : CoordM ι κ μ Unit :=
  if cfg.offloadEnabled = false then
    pure ()
  else do
    let k ← nextDeviceCall
    PyM.raiseIf (cfg.fault k = some .capturing)
      (.runtimeError "Mixed prefix D2H scheduling is forbidden during graph capture.")
    pollOffload cfg
    let c ← PyM.get
    let (pending, selected) := SlotPool.selectWriteThroughCandidates c.prefixCache
      c.writeThroughCandidates newlyUnreferenced
    PyM.modify fun c => { c with writeThroughCandidates := pending }
    if selected.isEmpty then
      pure ()
    else do
      ensureHostCapacity cfg selected.length
      submitD2h cfg selected
      PyM.modify fun c =>
        { c with
          writeThroughCandidates :=
            selected.foldl (fun d b => d.erase b.stableBlockId) c.writeThroughCandidates }

def heldBlocks (seqId : Nat) : List (MixedBlock ι κ) :=
  (c.seqIdToPrefixBlocks.get? seqId).getD [] ++
    ((c.seqIdToMaterializedBlocks.get? seqId).getD .empty).values

def releaseSeq (seqId : Nat) : CoordM ι κ μ Unit := do
  let released := heldBlocks (← PyM.get) seqId
  PyM.modify fun c =>
    { c with
      seqIdToPrefixBlocks := c.seqIdToPrefixBlocks.erase seqId
      seqIdToMaterializedBlocks := c.seqIdToMaterializedBlocks.erase seqId }
  PyM.forEach (fun b => onIndex (releaseBlockRef b
    "Mixed prefix cache block ref_count became negative.")) released
  let pending := ((← PyM.get).pendingBlocks.get? seqId).getD []
  PyM.modify fun c =>
    { c with
      runtimeStates := c.runtimeStates.erase seqId
      pendingBlocks := c.pendingBlocks.erase seqId }
  PyM.forEach dropPendingBlock pending
  PyM.modify fun c =>
    { c with
      pendingDuplicateRefs := c.pendingDuplicateRefs.erase seqId
      capacityLimitedSeqIds := c.capacityLimitedSeqIds.erase seqId }
  scheduleWriteThrough cfg released

/-- The coordinator after `reset_after_warmup`. -/
def afterReset (c : PrefixCacheCoordinator ι κ μ) :
    PrefixCacheCoordinator ι κ μ :=
  { managers := c.managers
    offload :=
      { freeIndices := (List.range (cfg.hostCapacity.getD 0)).reverse
        deviceCalls := c.offload.deviceCalls }
    nextObjectId := c.nextObjectId
    nextSnapshotId := c.nextSnapshotId
    liveSnapshots := c.liveSnapshots
    releaseRaised := c.releaseRaised }

def resetAfterWarmup : CoordM ι κ μ Unit := do
  let c ← PyM.get
  PyM.raiseIf (c.seqIdToPrefixBlocks.size ≠ 0 ∨ c.seqIdToMaterializedBlocks.size ≠ 0) (.runtimeError
    "Cannot reset mixed prefix cache while sequences still reference blocks.")
  PyM.forEach dropPendingBlock c.pendingBlocks.values.flatten
  let blocks := (← PyM.get).prefixCache.blocks.values
  PyM.raiseIf (blocks.any (fun b => b.refCount ≠ 0) = true)
    (.runtimeError "Cannot reset mixed prefix cache while blocks are referenced")
  if cfg.offloadEnabled then synchronizeAll cfg else pure ()
  freeBlocks cfg blocks
  if cfg.offloadEnabled then synchronizeAll cfg else pure ()
  PyM.modify (afterReset cfg)

end PrefixCacheCoordinator

end SparseEngine
