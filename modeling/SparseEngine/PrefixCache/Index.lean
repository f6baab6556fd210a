import SparseEngine.PrefixCache.RadixTree
import SparseEngine.PrefixCache.RoutingMembership

/-! `RadixPrefixIndex` owns the cached prefix blocks. -/

namespace SparseEngine

inductive PrefixTransferKind where
  | d2h
  | h2d
deriving DecidableEq, Repr

structure PrefixBlockResidency where
  devicePresent : Bool := true
  hostPresent : Bool := false
  transfer : Option PrefixTransferKind := none
deriving DecidableEq, Repr

def PrefixBlockResidency.validate (r : PrefixBlockResidency) : Except PyError Unit :=
  if r.devicePresent = false ∧ r.hostPresent = false then
    .error (.runtimeError "Prefix cache block has no resident payload.")
  else if r.transfer = some .d2h then
    if r.devicePresent = false ∨ r.hostPresent = true then
      .error (.runtimeError
        "D2H prefix transfer requires a device payload and no published host payload.")
    else .ok ()
  else if r.transfer = some .h2d then
    if r.devicePresent = false ∨ r.hostPresent = false then
      .error (.runtimeError "H2D prefix transfer requires allocated device and host payloads.")
    else .ok ()
  else .ok ()

/-- `PrefixCacheBlock`, with the identity of the object. -/
structure PrefixCacheBlock (ι π : Type) where
  objectId : Nat
  stableBlockId : ι
  parentBlockId : Option ι
  logicalBlockIdx : Nat
  payload : π
  tokenIds : List Int := []
  refCount : Int := 0
  lastAccess : Nat := 0
  evictionPriority : Int := 0
  residency : PrefixBlockResidency := {}

namespace PrefixCacheBlock

variable {ι π : Type}

def locallyBlocked (b : PrefixCacheBlock ι π) : Bool :=
  b.refCount ≠ 0 || b.evictionPriority < 0 || b.residency.transfer.isSome

/-- The local conditions of `_device_reclaimable_block_ids`. -/
def locallyReclaimable (includeInflightD2h : Bool) (b : PrefixCacheBlock ι π) : Bool :=
  b.refCount = 0 && 0 ≤ b.evictionPriority && b.residency.devicePresent &&
    ((b.residency.hostPresent && b.residency.transfer.isNone) ||
      (includeInflightD2h && b.residency.transfer = some .d2h))

end PrefixCacheBlock

/-- What `__init__` fixes. -/
structure PrefixIndexConfig (ι : Type) where
  blockSize : Nat
  maxBlocks : Option Nat := none
  hashBlock : List Int → Option ι → ι
  blockSize_pos : 0 < blockSize
  maxBlocks_pos : ∀ m, maxBlocks = some m → 0 < m

theorem noLimit_pos : ∀ m, (none : Option Nat) = some m → 0 < m := by simp

theorem twoBlocks_pos : ∀ m, some 2 = some m → 0 < m := by simp

structure IndexEpochs where
  mutation : Nat := 0
  capacity : Nat := 0
  residentPayload : Nat := 0
  lookup : Nat := 0
  insert : Nat := 0
  remove : Nat := 0
deriving DecidableEq, Repr

namespace IndexEpochs

variable (e : IndexEpochs)

def markMutated : IndexEpochs := { e with mutation := e.mutation + 1 }

def markCapacityMutated : IndexEpochs :=
  { e with capacity := e.capacity + 1 }.markMutated

/-- `_resident_payload_epoch += 1`. -/
def markPayload : IndexEpochs :=
  { e with residentPayload := e.residentPayload + 1 }

def markInserted (capacityChanged : Bool) : IndexEpochs :=
  let e := { e with insert := e.insert + 1, lookup := e.lookup + 1 }
  if capacityChanged then e.markCapacityMutated else e.markMutated

/-- The epoch changes of `_mark_removed`. -/
def markRemoved : IndexEpochs :=
  { e with remove := e.remove + 1, lookup := e.lookup + 1 }.markCapacityMutated

end IndexEpochs

structure CapacityCache (ι : Type) where
  epoch : Int := -1
  ids : Finset ι := ∅

structure RadixPrefixIndex (ι π : Type) where
  backend : RadixTreeBackend ι := {}
  blocks : Dict ι (PrefixCacheBlock ι π) := .empty
  clock : Nat := 0
  epochs : IndexEpochs := {}
  removedBlockIdsForCapacity : Option (Finset ι) := some ∅
  freeableIds : Option (Finset ι) := none
  blockedFreeableChildren : Dict ι Int := .empty
  freeableCache : CapacityCache ι := {}
  evictableCache : CapacityCache ι := {}
  deviceFreeableCache : CapacityCache ι := {}
  deviceReclaimableCache : CapacityCache ι := {}
  committedBlocks : Nat := 0
  routingMembership : RoutingMembership ι := {}

def parentMap {ι π : Type} [DecidableEq ι] (blocks : Dict ι (PrefixCacheBlock ι π)) :
    ParentMap ι := fun id => (blocks.get? id).map (·.parentBlockId)

/-- Whether `id` is indexed by a block that satisfies `p`. -/
def blockWith {ι π : Type} [DecidableEq ι] (blocks : Dict ι (PrefixCacheBlock ι π))
    (p : PrefixCacheBlock ι π → Bool) (id : ι) : Bool := (blocks.get? id).any p

/-- `PrefixCacheDeleteResult`. -/
structure PrefixCacheDeleteResult (ι π : Type) where
  deletedBlocks : List (PrefixCacheBlock ι π)
  blockedBlocks : List (Option ι × String)

/-- An entry of the candidate heaps. -/
abbrev EvictionCandidate (ι : Type) := Int ×ₗ Nat ×ₗ ι

namespace RadixPrefixIndex

variable {ι π : Type} [LinearOrder ι]

abbrev IndexM (ι π α : Type) := PyM (RadixPrefixIndex ι π) α

variable (s : RadixPrefixIndex ι π)

/-- `self.blocks.get(block.stable_block_id) is block`. -/
def isIndexed (b : PrefixCacheBlock ι π) : Bool :=
  match s.blocks.get? b.stableBlockId with
  | none => false
  | some c => c.objectId = b.objectId

/-- The current fields of the object `b`. -/
def deref (b : PrefixCacheBlock ι π) : PrefixCacheBlock ι π :=
  match s.blocks.get? b.stableBlockId with
  | none => b
  | some c => if c.objectId = b.objectId then c else b

/-- Write the fields of the object `b`. -/
def assign (b : PrefixCacheBlock ι π) : RadixPrefixIndex ι π :=
  if s.isIndexed b then { s with blocks := s.blocks.set b.stableBlockId b } else s

def tick : IndexM ι π Nat := do
  PyM.modify fun s => { s with clock := s.clock + 1 }
  return (← PyM.get).clock

def markMutated : IndexM ι π Unit :=
  PyM.modify fun s => { s with epochs := s.epochs.markMutated }

def markCapacityMutated : IndexM ι π Unit :=
  PyM.modify fun s => { s with epochs := s.epochs.markCapacityMutated }

def takeRemovedBlockIdsForCapacity : IndexM ι π (Option (Finset ι)) := do
  let s ← PyM.get
  if s.removedBlockIdsForCapacity ≠ some ∅ then
    PyM.modify fun s => { s with removedBlockIdsForCapacity := some ∅ }
  return s.removedBlockIdsForCapacity

/-- The bounded removal journal. -/
def journalRemoval (journal : Option (Finset ι)) (blockId : ι) : Option (Finset ι) :=
  match journal with
  | none => none
  | some ids => if (insert blockId ids).card > 4096 then none else some (insert blockId ids)

def markRemoved (blockId : ι) : IndexM ι π Unit :=
  PyM.modify fun s =>
    { s with
      epochs := s.epochs.markRemoved
      removedBlockIdsForCapacity := journalRemoval s.removedBlockIdsForCapacity blockId }

/-- `d[key]` for a dictionary of the index. -/
def entry {V : Type} (d : Dict ι V) (key : ι) : Except PyError V :=
  match d.get? key with
  | none => .error (.keyError "key")
  | some v => .ok v

/-- The loop of `_refresh_freeable_path` over the freeable set and the counters. -/
def refreshLoop (blocks : Dict ι (PrefixCacheBlock ι π)) :
    Nat → Option ι → PyM (Finset ι × Dict ι Int) Unit
  | _, none => pure ()
  | 0, some _ => PyM.raise .outOfFuel
  | fuel + 1, some blockId => do
    let block ← PyM.lift (entry blocks blockId)
    let (freeable, counts) ← PyM.get
    let count ← PyM.lift (entry counts blockId)
    let wasFreeable : Bool := blockId ∈ freeable
    let isFreeable : Bool := count = 0 && !block.locallyBlocked
    if isFreeable = wasFreeable then
      pure ()
    else do
      PyM.modify fun t =>
        (if isFreeable then insert blockId t.1 else t.1.erase blockId, t.2)
      match block.parentBlockId with
      | none => pure ()
      | some parentId => do
        let parentCount ← PyM.lift (entry counts parentId)
        PyM.modify fun t =>
          (t.1, t.2.set parentId (parentCount + if isFreeable then -1 else 1))
        refreshLoop blocks fuel (some parentId)

def refreshFreeablePath (blockId : Option ι) : IndexM ι π Unit := fun s =>
  match s.freeableIds with
  | none => (.ok (), s)
  | some freeable =>
    match refreshLoop s.blocks (s.blocks.size + 1) blockId (freeable, s.blockedFreeableChildren) with
    | (r, (freeable, counts)) =>
      (r, { s with freeableIds := some freeable, blockedFreeableChildren := counts })

variable (b : PrefixCacheBlock ι π)

def validateIndexedBlock : IndexM ι π Unit := do
  let s ← PyM.get
  PyM.raiseIf (s.isIndexed b = false)
    (.runtimeError "Cannot update a prefix block that is not indexed.")

def setBlockRefCount (refCount : Int)
    (negativeError : String := "Prefix cache block ref_count became negative.") :
    IndexM ι π Unit := do
  validateIndexedBlock b
  PyM.raiseIf (refCount < 0) (.runtimeError negativeError)
  let s ← PyM.get
  let block := s.deref b
  if block.refCount = refCount then
    pure ()
  else do
    PyM.modify (·.assign { block with refCount := refCount })
    if (block.refCount = 0) ≠ (refCount = 0) then do
      refreshFreeablePath (some b.stableBlockId)
      markCapacityMutated
    else
      markMutated

def acquireBlockRef : IndexM ι π Unit := do
  let s ← PyM.get
  setBlockRefCount b ((s.deref b).refCount + 1)

def releaseBlockRef
    (negativeError : String := "Prefix cache block ref_count became negative.") :
    IndexM ι π Unit := do
  let s ← PyM.get
  setBlockRefCount b ((s.deref b).refCount - 1) negativeError

def markPayloadCompacted (bs : List (PrefixCacheBlock ι π)) : IndexM ι π Unit :=
  if bs.isEmpty then
    pure ()
  else do
    PyM.forEach validateIndexedBlock bs
    PyM.modify fun s => { s with epochs := s.epochs.markPayload.markCapacityMutated }

/-- The ids of the full blocks of `tokens`. -/
def blockIdsLoop (cfg : PrefixIndexConfig ι) : Nat → List Int → Option ι → List ι
  | 0, _, _ => []
  | n + 1, tokens, parent =>
    let blockId := cfg.hashBlock (tokens.take cfg.blockSize) parent
    blockId :: blockIdsLoop cfg n (tokens.drop cfg.blockSize) (some blockId)

variable (cfg : PrefixIndexConfig ι)

def blockIdsForTokens (tokens : List Int)
    (maxTokens : Option Int := none) : List ι :=
  let tokenLimit : Int :=
    match maxTokens with
    | none => tokens.length
    | some m => min m tokens.length
  blockIdsLoop cfg (tokenLimit.toNat / cfg.blockSize) tokens none

/-- `match_longest_block_ids`. -/
def matchLongestBlockIds (s : RadixPrefixIndex ι π)
    (blockIds : List ι) : Except PyError (Nat × Option ι × Nat) := do
  let result ← s.backend.lookup blockIds blockIds.length
  if result.hitBlockCount ≤ 0 then
    return (0, none, 0)
  else
    return (result.hitBlockCount * cfg.blockSize, result.lastBlockId, result.hitBlockCount)

def getChain (lastBlockId : ι) (blockCount : Int) :
    Except PyError (List (PrefixCacheBlock ι π)) := do
  if blockCount ≤ 0 then
    .error (.valueError "block_count must be > 0")
  else
    let path ← s.backend.pathToBlock lastBlockId
    if (path.length : Int) < blockCount then
      .error (.runtimeError "Prefix cache chain is shorter than expected")
    else
      (path.drop (path.length - blockCount.toNat)).mapM fun blockId =>
        match s.blocks.get? blockId with
        | none => .error (.runtimeError "Prefix cache chain is incomplete")
        | some block => .ok block

def evictableBlockIds : IndexM ι π (Finset ι) := do
  let s ← PyM.get
  if s.evictableCache.epoch = s.epochs.capacity then
    return s.evictableCache.ids
  else do
    let ids := s.backend.leafBlockIds.filter
      fun blockId => blockWith s.blocks (fun block => !block.locallyBlocked) blockId
    PyM.modify fun s => { s with evictableCache := ⟨s.epochs.capacity, ids⟩ }
    return ids

/-- `children[parent] += delta` on a counter dictionary. -/
def addCount (counts : Dict ι Int) (key : ι) (delta : Int) : Except PyError (Dict ι Int) := do
  let count ← entry counts key
  return counts.set key (count + delta)

/-- `if parent is not None: children[parent] += 1`. -/
def countEdge (parentBlockId : Option ι) (counts : Dict ι Int) : Except PyError (Dict ι Int) :=
  match parentBlockId with
  | none => .ok counts
  | some parentId => addCount counts parentId 1

variable (blocks : Dict ι (PrefixCacheBlock ι π))

def countChildren (counts : Dict ι Int) :
    Except PyError (Dict ι Int) :=
  blocks.values.foldlM (fun counts block => countEdge block.parentBlockId counts) counts

/-- The virtual leaf removal of `freeable_block_ids`. -/
def freeableLoop (blocks : Dict ι (PrefixCacheBlock ι π)) :
    Nat → List ι → Finset ι → Dict ι Int → Except PyError (Finset ι × Dict ι Int)
  | 0, _, _, _ => .error .outOfFuel
  | _ + 1, [], freeable, counts => .ok (freeable, counts)
  | fuel + 1, blockId :: pending, freeable, counts => do
    let block ← entry blocks blockId
    if block.locallyBlocked then
      freeableLoop blocks fuel pending freeable counts
    else
      match block.parentBlockId with
      | none => freeableLoop blocks fuel pending (insert blockId freeable) counts
      | some parentId => do
        let counts ← addCount counts parentId (-1)
        let count ← entry counts parentId
        freeableLoop blocks fuel (if count = 0 then parentId :: pending else pending)
          (insert blockId freeable) counts

def freeableScan :
    Except PyError (Finset ι × Dict ι Int) := do
  let zeros := blocks.keys.foldl (fun d blockId => d.set blockId 0) Dict.empty
  let counts ← countChildren blocks zeros
  let pending := (counts.entries.filter fun e => e.2 = 0).map Prod.fst
  freeableLoop blocks (2 * blocks.size + 1) pending.reverse ∅ counts

def freeableBlockIds : IndexM ι π (Finset ι) := do
  let s ← PyM.get
  if s.freeableCache.epoch = s.epochs.capacity then
    return s.freeableCache.ids
  else
    match s.freeableIds with
    | some freeable => do
      PyM.modify fun s => { s with freeableCache := ⟨s.epochs.capacity, freeable⟩ }
      return freeable
    | none => do
      let (freeable, counts) ← PyM.lift (freeableScan s.blocks)
      PyM.modify fun s =>
        { s with
          freeableIds := some freeable
          blockedFreeableChildren := counts
          freeableCache := ⟨s.epochs.capacity, freeable⟩ }
      return freeable

def childCount (s : RadixPrefixIndex ι π) (blockId : ι) : Except PyError Nat :=
  s.backend.childCount blockId

def deviceChildCount (blockId : ι) : Except PyError Nat := do
  let children ← s.backend.childBlockIds blockId
  return (children.filter (blockWith s.blocks fun child => child.residency.devicePresent)).length

/-- The demotion closure of `_device_reclaimable_block_ids`. -/
def deviceReclaimableLoop (includeInflightD2h : Bool) (blocks : Dict ι (PrefixCacheBlock ι π)) :
    Nat → List ι → Finset ι → Dict ι Int → Except PyError (Finset ι)
  | 0, _, _, _ => .error .outOfFuel
  | _ + 1, [], freeable, _ => .ok freeable
  | fuel + 1, blockId :: stack, freeable, deviceChildren =>
    match blocks.get? blockId with
    | none => deviceReclaimableLoop includeInflightD2h blocks fuel stack freeable deviceChildren
    | some block =>
      if blockId ∈ freeable ∨ block.locallyReclaimable includeInflightD2h = false then
        deviceReclaimableLoop includeInflightD2h blocks fuel stack freeable deviceChildren
      else
        match block.parentBlockId with
        | none =>
          deviceReclaimableLoop includeInflightD2h blocks fuel stack (insert blockId freeable)
            deviceChildren
        | some parentId =>
          match deviceChildren.get? parentId with
          | none =>
            deviceReclaimableLoop includeInflightD2h blocks fuel stack (insert blockId freeable)
              deviceChildren
          | some count =>
            deviceReclaimableLoop includeInflightD2h blocks fuel
              (if count - 1 = 0 then parentId :: stack else stack) (insert blockId freeable)
              (deviceChildren.set parentId (count - 1))

/-- The scan of `_device_reclaimable_block_ids`. -/
def deviceReclaimableScan (includeInflightD2h : Bool) (s : RadixPrefixIndex ι π) :
    Except PyError (Finset ι) := do
  let deviceIds := (s.blocks.entries.filter fun e => e.2.residency.devicePresent).map Prod.fst
  let deviceChildren ← deviceIds.foldlM (fun d blockId => do
    let count ← s.deviceChildCount blockId
    return d.set blockId (count : Int)) Dict.empty
  let stack := (deviceChildren.entries.filter fun e => e.2 = 0).map Prod.fst
  deviceReclaimableLoop includeInflightD2h s.blocks (2 * s.blocks.size + 1) stack.reverse ∅
    deviceChildren

/-- `_device_reclaimable_block_ids`. -/
def deviceReclaimableIds (includeInflightD2h : Bool) : IndexM ι π (Finset ι) := do
  let s ← PyM.get
  let cache := if includeInflightD2h then s.deviceReclaimableCache else s.deviceFreeableCache
  if cache.epoch = s.epochs.capacity then
    return cache.ids
  else do
    let result ← PyM.lift (deviceReclaimableScan includeInflightD2h s)
    PyM.modify fun s =>
      if includeInflightD2h then
        { s with deviceReclaimableCache := ⟨s.epochs.capacity, result⟩ }
      else
        { s with deviceFreeableCache := ⟨s.epochs.capacity, result⟩ }
    return result

def deviceFreeableBlockIds : IndexM ι π (Finset ι) := deviceReclaimableIds false

def deviceReclaimableBlockIds : IndexM ι π (Finset ι) := deviceReclaimableIds true

/-- `parent is None or parent_is_locally_blocked`. -/
def parentBlocked (b : PrefixCacheBlock ι π) : Bool :=
  b.parentBlockId.all fun p => (blocks.get? p).all PrefixCacheBlock.locallyBlocked

variable (block : PrefixCacheBlock ι π)

/-- The freeable counters in `insert_block`. -/
def insertFreeable : IndexM ι π Unit := do
  let s ← PyM.get
  if s.freeableIds.isNone then
    pure ()
  else do
    let counts := s.blockedFreeableChildren.set block.stableBlockId 0
    PyM.modify fun s => { s with blockedFreeableChildren := counts }
    let counts ← PyM.lift (countEdge block.parentBlockId counts)
    PyM.modify fun s => { s with blockedFreeableChildren := counts }
    refreshFreeablePath (some block.stableBlockId)
    refreshFreeablePath block.parentBlockId

/-- The parent checks of `insert_block`. -/
def checkInsertParent : IndexM ι π Unit := do
  let s ← PyM.get
  match block.parentBlockId with
  | none => pure ()
  | some parentId =>
    match s.blocks.get? parentId with
    | none => PyM.raise (.keyError "Cannot insert prefix cache block because parent is missing.")
    | some parent => do
      PyM.raiseIf (block.residency.devicePresent ∧ parent.residency.devicePresent = false)
        (.runtimeError "Cannot insert a device-resident prefix block below a host-only parent.")
      PyM.raiseIf (block.residency.hostPresent ∧ parent.residency.hostPresent = false)
        (.runtimeError "Cannot insert a host-resident prefix block below a device-only parent.")

/-- The rest of `insert_block` once the checks passed. -/
def storeNewBlock : IndexM ι π (PrefixCacheBlock ι π) := do
  let now ← tick
  let block := { block with lastAccess := now }
  PyM.modify fun s => { s with blocks := s.blocks.set block.stableBlockId block }
  PyM.zoom (·.backend) (fun t s => { s with backend := t })
    (RadixTreeBackend.insertChild block.parentBlockId block.stableBlockId)
  insertFreeable block
  PyM.modify fun s => { s with committedBlocks := s.committedBlocks + 1 }
  let s ← PyM.get
  let membership ← PyM.lift (s.routingMembership.insert block.stableBlockId)
  PyM.modify fun s => { s with routingMembership := membership }
  PyM.modify fun s =>
    { s with
      epochs := s.epochs.markInserted !(block.locallyBlocked && parentBlocked s.blocks block) }
  return block

/-- `insert_block`. The returned block is the indexed one. -/
def insertBlock (b : PrefixCacheBlock ι π) :
    IndexM ι π (PrefixCacheBlock ι π) := do
  let s ← PyM.get
  let block := s.deref b
  PyM.lift block.residency.validate
  match s.blocks.get? block.stableBlockId with
  | some existing => do
    let now ← tick
    let existing := { existing with lastAccess := now }
    PyM.modify (·.assign existing)
    return existing
  | none =>
    if cfg.maxBlocks.any (· ≤ s.blocks.size) then do
      -- The message reports `evictable_blocks()`, which may refresh its cache.
      let _ ← evictableBlockIds
      PyM.raise (.runtimeError "Prefix cache capacity exceeded before insert")
    else do
      checkInsertParent block
      storeNewBlock block

def touchChain (bs : List (PrefixCacheBlock ι π)) : IndexM ι π Unit := do
  let access ← tick
  PyM.forEach (fun b => PyM.modify fun s => s.assign { s.deref b with lastAccess := access }) bs

def removeBlockFromIndex (blockId : ι) : IndexM ι π (PrefixCacheBlock ι π) := do
  let s ← PyM.get
  match s.blocks.get? blockId with
  | none => PyM.raise (.keyError "Prefix cache block is not present.")
  | some block => do
    PyM.raiseIf (block.refCount ≠ 0)
      (.runtimeError "Cannot remove a referenced prefix cache block.")
    PyM.raiseIf (block.evictionPriority < 0)
      (.runtimeError "Cannot remove a negative-priority prefix cache block.")
    PyM.raiseIf (block.residency.transfer.isSome)
      (.runtimeError "Cannot remove a prefix cache block with an in-flight transfer.")
    let children ← PyM.lift (s.childCount blockId)
    PyM.raiseIf (children ≠ 0)
      (.runtimeError "Cannot remove a prefix cache block with live children.")
    PyM.zoom (·.backend) (fun t s => { s with backend := t }) (RadixTreeBackend.removeBlock blockId)
    PyM.modify fun s => { s with blocks := s.blocks.erase blockId }
    match s.freeableIds with
    | none => pure ()
    | some freeable => do
      PyM.modify fun s => { s with freeableIds := some (freeable.erase blockId) }
      let _ ← PyM.lift (entry s.blockedFreeableChildren blockId)
      PyM.modify fun s =>
        { s with blockedFreeableChildren := s.blockedFreeableChildren.erase blockId }
      if blockId ∈ freeable then
        pure ()
      else
        match block.parentBlockId with
        | none => pure ()
        | some parentId => do
          let s ← PyM.get
          let counts ← PyM.lift (addCount s.blockedFreeableChildren parentId (-1))
          PyM.modify fun s => { s with blockedFreeableChildren := counts }
          refreshFreeablePath (some parentId)
    let s ← PyM.get
    let membership ← PyM.lift (s.routingMembership.remove blockId)
    PyM.modify fun s => { s with routingMembership := membership }
    markRemoved blockId
    return block

def rollbackInsertedLeaf : IndexM ι π Unit := do
  let s ← PyM.get
  PyM.raiseIf (s.isIndexed b = false)
    (.runtimeError "Cannot roll back a prefix block that is not the current indexed block.")
  PyM.raiseIf ((s.deref b).refCount ≠ 0)
    (.runtimeError "Cannot roll back a referenced prefix block.")
  let children ← PyM.lift (s.childCount b.stableBlockId)
  PyM.raiseIf (children ≠ 0)
    (.runtimeError "Cannot roll back a prefix block with live children.")
  PyM.raiseIf (s.committedBlocks ≤ 0)
    (.runtimeError "Cannot roll back prefix commit statistics below zero.")
  let _ ← removeBlockFromIndex b.stableBlockId
  PyM.modify fun s => { s with committedBlocks := s.committedBlocks - 1 }

/-- Write the residency of `b`. -/
def commitResidency (residency : PrefixBlockResidency) :
    IndexM ι π Unit := do
  PyM.modify fun s => s.assign { s.deref b with residency := residency }
  PyM.lift residency.validate
  refreshFreeablePath (some b.stableBlockId)
  markCapacityMutated

def beginD2h : IndexM ι π Unit := do
  let s ← PyM.get
  PyM.raiseIf (s.isIndexed b = false)
    (.runtimeError "Cannot back up a prefix block that is not indexed.")
  let block := s.deref b
  PyM.lift block.residency.validate
  PyM.raiseIf (block.refCount ≠ 0)
    (.runtimeError "Cannot back up a referenced prefix cache block.")
  PyM.raiseIf block.residency.hostPresent
    (.runtimeError "Cannot back up a prefix cache block that already has a host payload.")
  PyM.raiseIf block.residency.transfer.isSome
    (.runtimeError "Cannot start D2H while another prefix transfer is active.")
  PyM.raiseIf (block.parentBlockId.any fun parentId => !blockWith s.blocks
      (fun parent => parent.residency.hostPresent || parent.residency.transfer = some .d2h) parentId)
    (.runtimeError "Prefix D2H backup must preserve a host-resident path from the radix root.")
  commitResidency b { block.residency with transfer := some .d2h }

def finishD2h : IndexM ι π Unit := do
  let s ← PyM.get
  let block := s.deref b
  PyM.raiseIf (block.residency.transfer ≠ some .d2h)
    (.runtimeError "Cannot finish D2H without an active D2H prefix transfer.")
  PyM.raiseIf (block.parentBlockId.any fun parentId =>
      !blockWith s.blocks (fun parent => parent.residency.hostPresent) parentId)
    (.runtimeError "Cannot publish a host prefix payload before its parent is host-resident.")
  commitResidency b { block.residency with hostPresent := true, transfer := none }

def abortD2h : IndexM ι π Unit := do
  let s ← PyM.get
  let block := s.deref b
  PyM.raiseIf (block.residency.transfer ≠ some .d2h)
    (.runtimeError "Cannot abort D2H without an active D2H prefix transfer.")
  commitResidency b { block.residency with transfer := none }

/-- `_resident_payload_epoch += 1`. -/
def markPayload : IndexM ι π Unit :=
  PyM.modify fun s => { s with epochs := s.epochs.markPayload }

def beginH2d : IndexM ι π Unit := do
  let s ← PyM.get
  PyM.raiseIf (s.isIndexed b = false)
    (.runtimeError "Cannot promote a prefix block that is not indexed.")
  let block := s.deref b
  PyM.lift block.residency.validate
  PyM.raiseIf block.residency.devicePresent
    (.runtimeError "Cannot promote a prefix cache block that already has a device payload.")
  PyM.raiseIf (block.residency.hostPresent = false)
    (.runtimeError "Cannot promote a prefix cache block without a host payload.")
  PyM.raiseIf block.residency.transfer.isSome
    (.runtimeError "Cannot start H2D while another prefix transfer is active.")
  PyM.raiseIf (block.parentBlockId.any fun parentId =>
      !blockWith s.blocks (fun parent => parent.residency.devicePresent) parentId)
    (.runtimeError
      "Prefix H2D promotion must preserve a device-resident path from the radix root.")
  markPayload
  commitResidency b { block.residency with devicePresent := true, transfer := some .h2d }

def finishH2d : IndexM ι π Unit := do
  let s ← PyM.get
  let block := s.deref b
  PyM.raiseIf (block.residency.transfer ≠ some .h2d)
    (.runtimeError "Cannot finish H2D without an active H2D prefix transfer.")
  commitResidency b { block.residency with transfer := none }

def abortH2d : IndexM ι π Unit := do
  let s ← PyM.get
  let block := s.deref b
  PyM.raiseIf (block.residency.transfer ≠ some .h2d)
    (.runtimeError "Cannot abort H2D without an active H2D prefix transfer.")
  let children ← PyM.lift (s.deviceChildCount b.stableBlockId)
  PyM.raiseIf (children ≠ 0)
    (.runtimeError "Cannot abort H2D while a device-resident child depends on the block.")
  markPayload
  commitResidency b { block.residency with devicePresent := false, transfer := none }

/-! ## Evictions

A candidate heap is kept as its sorted list: `heapify` sorts, `heappush` inserts in
order, `heappop` takes the head. -/

def candidateOf : EvictionCandidate ι :=
  toLex (-block.evictionPriority, toLex (block.lastAccess, block.stableBlockId))

def candidateId (c : EvictionCandidate ι) : ι := (ofLex (ofLex c).2).2

def heapify (heap : List (EvictionCandidate ι)) : List (EvictionCandidate ι) :=
  heap.insertionSort (· ≤ ·)

def heapPush (heap : List (EvictionCandidate ι)) (c : EvictionCandidate ι) :
    List (EvictionCandidate ι) := heap.orderedInsert (· ≤ ·) c

def canEvict (block : PrefixCacheBlock ι π) : Except PyError Bool := do
  if block.locallyBlocked then
    return false
  else
    let children ← s.childCount block.stableBlockId
    return children = 0

def canEvictHost (block : PrefixCacheBlock ι π) :
    Except PyError Bool := do
  if block.refCount ≠ 0 ∨ block.evictionPriority < 0 ∨ block.residency.devicePresent ∨
      block.residency.hostPresent = false ∨ block.residency.transfer.isSome then
    return false
  else
    let children ← s.childCount block.stableBlockId
    return children = 0

/-- `queue_if_evictable`. -/
def queueIf (can : PrefixCacheBlock ι π → Except PyError Bool)
    (blocks : Dict ι (PrefixCacheBlock ι π))
    (push : List (EvictionCandidate ι) → EvictionCandidate ι → List (EvictionCandidate ι))
    (blockId : Option ι) (heap : List (EvictionCandidate ι)) (queued : Finset ι) :
    Except PyError (List (EvictionCandidate ι) × Finset ι) :=
  match blockId with
  | none => .ok (heap, queued)
  | some blockId =>
    if blockId ∈ queued then .ok (heap, queued)
    else
      match blocks.get? blockId with
      | none => .ok (heap, queued)
      | some block => do
        if ← can block then
          return (push heap (candidateOf block), insert blockId queued)
        else
          return (heap, queued)

/-- The eviction loop shared by `evict_until_weight` and `evict_host_until_weight`. -/
def evictLoop (can : RadixPrefixIndex ι π → PrefixCacheBlock ι π → Except PyError Bool)
    (weightError : String) (neededWeight : Int) (blockWeight : PrefixCacheBlock ι π → Int) :
    Nat → List (EvictionCandidate ι) → Finset ι → List (PrefixCacheBlock ι π) → Int →
      IndexM ι π (List (PrefixCacheBlock ι π))
  | 0, _, _, _, _ => PyM.raise .outOfFuel
  | fuel + 1, heap, queued, evicted, evictedWeight =>
    if neededWeight ≤ evictedWeight then
      return evicted
    else
      match heap with
      | [] => return evicted
      | candidate :: heap => do
        let blockId := candidateId candidate
        let queued := queued.erase blockId
        let s ← PyM.get
        match s.blocks.get? blockId with
        | none =>
          evictLoop can weightError neededWeight blockWeight fuel heap queued evicted evictedWeight
        | some block => do
          if ← PyM.lift (can s block) then do
            PyM.raiseIf (blockWeight block < 0) (.valueError weightError)
            let removed ← removeBlockFromIndex block.stableBlockId
            let s ← PyM.get
            let (heap, queued) ←
              PyM.lift (queueIf (can s) s.blocks heapPush block.parentBlockId heap queued)
            evictLoop can weightError neededWeight blockWeight fuel heap queued
              (evicted ++ [removed]) (evictedWeight + blockWeight block)
          else
            evictLoop can weightError neededWeight blockWeight fuel heap queued evicted
              evictedWeight

/-- Evict leaves in priority order until `neededWeight` is reached. -/
def evictLeavesUntilWeight
    (can : RadixPrefixIndex ι π → PrefixCacheBlock ι π → Except PyError Bool)
    (weightError : String) (neededWeight : Int) (blockWeight : PrefixCacheBlock ι π → Int) :
    IndexM ι π (List (PrefixCacheBlock ι π)) :=
  if neededWeight ≤ 0 then
    return []
  else do
    let s ← PyM.get
    let (heap, queued) ← PyM.lift ((s.backend.leafBlockIds.sort (· ≤ ·)).foldlM
      (fun hq blockId =>
        queueIf (can s) s.blocks (fun heap c => heap ++ [c]) (some blockId) hq.1 hq.2)
      (([] : List (EvictionCandidate ι)), (∅ : Finset ι)))
    evictLoop can weightError neededWeight blockWeight (2 * s.blocks.size + 1) (heapify heap) queued
      [] 0

variable (neededWeight : Int)

variable (blockWeight : PrefixCacheBlock ι π → Int)

def evictUntilWeight :
    IndexM ι π (List (PrefixCacheBlock ι π)) :=
  evictLeavesUntilWeight canEvict "Prefix cache eviction weight must be non-negative" neededWeight
    blockWeight

def evictUntilFreeable (neededBlocks : Int) : IndexM ι π (List (PrefixCacheBlock ι π)) :=
  evictUntilWeight neededBlocks fun _ => 1

def evictHostUntilWeight :
    IndexM ι π (List (PrefixCacheBlock ι π)) :=
  evictLeavesUntilWeight canEvictHost "Prefix cache host eviction weight must be non-negative"
    neededWeight blockWeight

def ensureInsertCapacity (neededBlocks : Int) :
    IndexM ι π (List (PrefixCacheBlock ι π)) :=
  match cfg.maxBlocks with
  | none => return []
  | some maxBlocks => do
    PyM.raiseIf (neededBlocks ≤ 0) (.valueError "needed_blocks must be > 0")
    let s ← PyM.get
    let overCapacity : Int := s.blocks.size + neededBlocks - maxBlocks
    if overCapacity ≤ 0 then
      return []
    else do
      let evicted ← evictUntilFreeable overCapacity
      if (evicted.length : Int) = overCapacity then
        return evicted
      else do
        let _ ← evictableBlockIds
        PyM.raise (.runtimeError "Prefix cache capacity exceeded and not enough blocks are evictable")

/-- The edge counts of `demote_device_until_weight`. -/
def countDeviceChildren : Except PyError (Dict ι Int) := do
  let deviceIds := (blocks.entries.filter fun e => e.2.residency.devicePresent).map Prod.fst
  let zeros := deviceIds.foldl (fun d blockId => d.set blockId 0) Dict.empty
  deviceIds.foldlM (fun d blockId => do
    let block ← entry blocks blockId
    countEdge block.parentBlockId d) zeros

/-- `block.residency.device_present = False`. -/
def demoted : PrefixCacheBlock ι π :=
  { b with residency := { b.residency with devicePresent := false } }

def demotable (deviceChildren : Dict ι Int) (block : PrefixCacheBlock ι π) :
    Except PyError Bool := do
  if block.refCount = 0 ∧ 0 ≤ block.evictionPriority ∧ block.residency.devicePresent ∧
      block.residency.hostPresent ∧ block.residency.transfer.isNone then
    let count ← entry deviceChildren block.stableBlockId
    return count = 0
  else
    return false

def demoteDevice : IndexM ι π Unit := do
  PyM.modify (·.assign (demoted block))
  markPayload
  PyM.lift (demoted block).residency.validate
  markCapacityMutated

/-- The loop of `demote_device_until_weight`. -/
def demoteLoop (neededWeight : Int) (blockWeight : PrefixCacheBlock ι π → Int) :
    Nat → List (EvictionCandidate ι) → Finset ι → Dict ι Int → List (PrefixCacheBlock ι π) →
      Int → IndexM ι π (List (PrefixCacheBlock ι π))
  | 0, _, _, _, _, _ => PyM.raise .outOfFuel
  | fuel + 1, heap, queued, deviceChildren, demotedBlocks, demotedWeight =>
    if neededWeight ≤ demotedWeight then
      return demotedBlocks
    else
      match heap with
      | [] => return demotedBlocks
      | candidate :: heap => do
        let blockId := candidateId candidate
        let queued := queued.erase blockId
        let s ← PyM.get
        match s.blocks.get? blockId with
        | none =>
          demoteLoop neededWeight blockWeight fuel heap queued deviceChildren demotedBlocks
              demotedWeight
        | some block => do
          if ← PyM.lift (demotable deviceChildren block) then do
            PyM.raiseIf (blockWeight block < 0)
              (.valueError "Prefix cache demotion weight must be non-negative")
            demoteDevice block
            let s ← PyM.get
            let demotedBlocks := demotedBlocks ++ [s.deref block]
            match block.parentBlockId with
            | none =>
              demoteLoop neededWeight blockWeight fuel heap queued deviceChildren demotedBlocks
                (demotedWeight + blockWeight block)
            | some parentId => do
              let deviceChildren ← PyM.lift (addCount deviceChildren parentId (-1))
              let count ← PyM.lift (entry deviceChildren parentId)
              if count = 0 then do
                let (heap, queued) ← PyM.lift
                  (queueIf (demotable deviceChildren) s.blocks heapPush (some parentId) heap queued)
                demoteLoop neededWeight blockWeight fuel heap queued deviceChildren demotedBlocks
                  (demotedWeight + blockWeight block)
              else
                demoteLoop neededWeight blockWeight fuel heap queued deviceChildren demotedBlocks
                  (demotedWeight + blockWeight block)
          else
            demoteLoop neededWeight blockWeight fuel heap queued deviceChildren demotedBlocks
              demotedWeight

def demoteDeviceUntilWeight :
    IndexM ι π (List (PrefixCacheBlock ι π)) :=
  if neededWeight ≤ 0 then
    return []
  else do
    let s ← PyM.get
    let deviceChildren ← PyM.lift (countDeviceChildren s.blocks)
    let leaves := (deviceChildren.entries.filter fun e => e.2 = 0).map Prod.fst
    let (heap, queued) ← PyM.lift (leaves.foldlM
      (fun hq blockId => queueIf (demotable deviceChildren) s.blocks (fun heap c => heap ++ [c])
        (some blockId) hq.1 hq.2)
      (([] : List (EvictionCandidate ι)), (∅ : Finset ι)))
    demoteLoop neededWeight blockWeight (2 * s.blocks.size + 1) (heapify heap) queued deviceChildren
      [] 0

def exactSubtreeIdsForTokens (s : RadixPrefixIndex ι π)
    (tokenIds : List Int) : Except PyError (Option (List ι)) := do
  let blockIds := blockIdsForTokens cfg tokenIds
  if blockIds.isEmpty then
    return none
  else
    let result ← s.backend.lookup blockIds blockIds.length
    match result.lastBlockId with
    | none => return none
    | some lastBlockId =>
      if result.hitBlockCount ≠ blockIds.length then
        return none
      else
        return some (← s.backend.subtreeBlockIds lastBlockId)

/-- Why `preview_delete_subtree` leaves a block alone. -/
def deleteBlockedReason (block : PrefixCacheBlock ι π)
    (planned : Finset ι) : Except PyError (Option String) := do
  if 0 < block.refCount then
    return some "referenced"
  else if block.evictionPriority < 0 then
    return some "negative_priority"
  else if block.residency.transfer.isSome then
    return some "transfer_inflight"
  else
    let children ← s.backend.childBlockIds block.stableBlockId
    if children.any (· ∉ planned) then
      return some "has_children"
    else
      return none

/-- The planning loop of `preview_delete_subtree`. -/
def previewLoop (s : RadixPrefixIndex ι π) : List ι → Finset ι →
    PrefixCacheDeleteResult ι π → Except PyError (PrefixCacheDeleteResult ι π)
  | [], _, result => .ok result
  | blockId :: blockIds, planned, result =>
    match s.blocks.get? blockId with
    | none => previewLoop s blockIds planned result
    | some block => do
      match ← s.deleteBlockedReason block planned with
      | some reason =>
        previewLoop s blockIds planned
          { result with blockedBlocks := result.blockedBlocks ++ [(some blockId, reason)] }
      | none =>
        previewLoop s blockIds (insert blockId planned)
          { result with deletedBlocks := result.deletedBlocks ++ [block] }

def previewDeleteSubtree (s : RadixPrefixIndex ι π)
    (tokenIds : List Int) : Except PyError (PrefixCacheDeleteResult ι π) := do
  match ← s.exactSubtreeIdsForTokens cfg tokenIds with
  | none => return ⟨[], [(none, "not_found")]⟩
  | some subtreeIds =>
    let keyed ← subtreeIds.mapM fun blockId => do
      return ((← s.backend.pathToBlock blockId).length, blockId)
    let sortedIds := (keyed.mergeSort fun a b => decide (b.1 ≤ a.1)).map Prod.snd
    previewLoop s sortedIds ∅ ⟨[], []⟩

/-- The loop of `safe_delete_subtree`. -/
def deleteLoop : List (PrefixCacheBlock ι π) → List (PrefixCacheBlock ι π) →
    IndexM ι π (List (PrefixCacheBlock ι π))
  | [], deleted => return deleted
  | planned :: rest, deleted => do
    let s ← PyM.get
    PyM.raiseIf (s.isIndexed planned = false)
      (.runtimeError "Prefix subtree deletion plan became stale before it was applied.")
    let block ← removeBlockFromIndex planned.stableBlockId
    deleteLoop rest (deleted ++ [block])

def safeDeleteSubtree (tokenIds : List Int) :
    IndexM ι π (PrefixCacheDeleteResult ι π) := do
  let s ← PyM.get
  let plan ← PyM.lift (s.previewDeleteSubtree cfg tokenIds)
  let deleted ← deleteLoop plan.deletedBlocks []
  return { plan with deletedBlocks := deleted }

/-- The loop of `set_subtree_eviction_priority`. -/
def setPriorityLoop (priority : Int) : List ι → Nat → Bool → Bool →
    IndexM ι π (Nat × Bool × Bool)
  | [], updated, changed, capacityChanged => return (updated, changed, capacityChanged)
  | blockId :: blockIds, updated, changed, capacityChanged => do
    let s ← PyM.get
    match s.blocks.get? blockId with
    | none => setPriorityLoop priority blockIds updated changed capacityChanged
    | some block =>
      if block.evictionPriority = priority then
        setPriorityLoop priority blockIds (updated + 1) changed capacityChanged
      else do
        PyM.modify (·.assign { block with evictionPriority := priority })
        let crossed : Bool := decide (block.evictionPriority < 0) != decide (priority < 0)
        if crossed then
          refreshFreeablePath (some blockId)
        else
          pure ()
        setPriorityLoop priority blockIds (updated + 1) true (capacityChanged || crossed)

/-- `set_subtree_eviction_priority`. -/
def setSubtreeEvictionPriority (tokenIds : List Int) (priority : Int) :
    IndexM ι π (Option ι × Nat) := do
  let s ← PyM.get
  let blockIds := blockIdsForTokens cfg tokenIds
  if blockIds.isEmpty then
    return (none, 0)
  else do
    let result ← PyM.lift (s.backend.lookup blockIds blockIds.length)
    match result.lastBlockId with
    | none => return (none, 0)
    | some lastBlockId =>
      if result.hitBlockCount ≠ blockIds.length then
        return (none, 0)
      else do
        let subtreeIds ← PyM.lift (s.backend.subtreeBlockIds lastBlockId)
        let (updated, changed, capacityChanged) ← setPriorityLoop priority subtreeIds 0 false false
        if capacityChanged then
          markCapacityMutated
        else if changed then
          markMutated
        else
          pure ()
        return (some lastBlockId, updated)

end RadixPrefixIndex

end SparseEngine
