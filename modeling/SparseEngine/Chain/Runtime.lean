import SparseEngine.Chain.Index

/-! `ChainOffloadController`, `ChainCacheCoordinator` and the chain calls of `RuntimeState`. -/

namespace SparseEngine

open PyM List ChainCacheIndex

/-- `ChainSnapshot`. -/
structure ChainSnapshot (κ : Type) where
  kvLengths : List Int
  method : κ
  nbytes : Nat
  valid : Bool := false
  completion : Bool := true
deriving DecidableEq, Repr

def ChainSnapshot.complete {κ : Type} (snapshot : ChainSnapshot κ) : ChainSnapshot κ :=
  { snapshot with completion := false, valid := true }

/-- The tables of `ChainOffloadController`. -/
structure ChainOffload (κ : Type) where
  snapshots : Dict Nat (ChainSnapshot κ) := .empty
  pending : Dict Nat Unit := .empty
  usedBytes : Int := 0

namespace ChainOffload

variable {κ : Type}

def snapshotBytes (o : ChainOffload κ) (seqId : Nat) : Nat :=
  (o.snapshots.get? seqId).elim 0 (·.nbytes)

def complete (seqId : Nat) (o : ChainOffload κ) : ChainOffload κ :=
  { o with
    pending := o.pending.erase seqId
    snapshots :=
      match o.snapshots.get? seqId with
      | some snapshot => o.snapshots.set seqId snapshot.complete
      | none => o.snapshots }

/-- `poll`, when the events of the `n` oldest copies are complete. -/
def poll : Nat → ChainOffload κ → ChainOffload κ
  | 0, o => o
  | n + 1, o =>
    match o.pending.keys with
    | [] => o
    | seqId :: _ => poll n (o.complete seqId)

variable (seqId : Nat)

def wait : PyM (ChainOffload κ) (ChainSnapshot κ) := do
  let o ← PyM.get
  match o.snapshots.get? seqId with
  | none => raise (.keyError "seq_id")
  | some snapshot =>
    if snapshot.completion then do
      raiseIf (o.pending.contains seqId = false) (.keyError "seq_id")
      PyM.modify (complete seqId)
      return snapshot.complete
    else return snapshot

def invalidate : PyM (ChainOffload κ) Unit := do
  let o ← PyM.get
  if o.snapshots.contains seqId then do
    let snapshot ← wait seqId
    PyM.modify fun o =>
      { o with snapshots := o.snapshots.set seqId { snapshot with valid := false } }
  else return

def drop : PyM (ChainOffload κ) Unit := do
  let o ← PyM.get
  if o.snapshots.contains seqId then do
    let snapshot ← wait seqId
    PyM.modify fun o =>
      { o with
        usedBytes := o.usedBytes - snapshot.nbytes
        snapshots := o.snapshots.erase seqId }
  else return

/-- The end of `save`. -/
def store (snapshot : ChainSnapshot κ) (o : ChainOffload κ) : ChainOffload κ where
  snapshots := o.snapshots.set seqId snapshot
  pending := o.pending.set seqId ()
  usedBytes := o.usedBytes + snapshot.nbytes

def reset : PyM (ChainOffload κ) Unit := do
  let o ← PyM.get
  forEach drop o.snapshots.keys

end ChainOffload

/-- The arguments of `chain_capacity_deficits`. -/
structure CapacityQuery where
  suffixTokens : Nat
  existingSlotsByLayer : List Int
  outstandingReservedSlotsByLayer : List Int
  outstandingReservedRows : Int
  needsResidentRow : Bool

/-- What `chain_capacity_deficits` returns. -/
structure CapacityAnswer where
  requiredSlots : List Int
  requiredRows : Int
  slotDeficits : List Int
  rowDeficit : Int

structure ChainManager (μ κ : Type) where
  numKvLayers : Nat
  tokenBytes : List Nat
  methodBytes : κ → Nat
  streamCapturing : μ → Bool
  hasResidency : μ → Nat → Bool
  physicalResidency : μ → Nat → Except PyError (List Int)
  capacityResidency : Option (μ → Nat → Except PyError (List Int))
  capacityDeficits : μ → CapacityQuery → CapacityAnswer
  decodeReserved : μ → List Int
  releaseDecode : Nat → μ → μ
  onChainTurnFinished : Nat → Nat → PyM μ Unit
  snapshotMethodState : Nat → PyM μ κ
  submitCopy : Nat → κ → PyM μ Unit
  allocateChainRestore : Nat → List Int → PyM μ Unit
  restoreCopy : Nat → κ → PyM μ Unit
  freeSeq : Nat → μ → μ
  freeSeqPayload : Nat → μ → μ

/-- What a runtime is created with. -/
structure ChainRuntimeConfig (φ δ : Type) where
  index : ChainIndexConfig δ
  fingerprint : φ
  capacityBytes : Option Nat
  capacityBytes_pos : ∀ n, capacityBytes = some n → 0 < n

structure ChainRuntime (ι φ δ μ κ : Type) where
  index : ChainCacheIndex ι φ δ := {}
  offload : ChainOffload κ := {}
  manager : μ

namespace ChainRuntime

variable {ι φ δ μ κ α : Type}

abbrev RuntimeM (ι φ δ μ κ : Type) := PyM (ChainRuntime ι φ δ μ κ)

def onIndex (m : PyM (ChainCacheIndex ι φ δ) α) : RuntimeM ι φ δ μ κ α :=
  zoom (·.index) (fun index s => { s with index := index }) m

def onOffload (m : PyM (ChainOffload κ) α) : RuntimeM ι φ δ μ κ α :=
  zoom (·.offload) (fun offload s => { s with offload := offload }) m

def onManager (m : PyM μ α) : RuntimeM ι φ δ μ κ α :=
  zoom (·.manager) (fun manager s => { s with manager := manager }) m

def query (f : μ → Except PyError α) : RuntimeM ι φ δ μ κ α := do
  let s ← PyM.get
  PyM.lift (f s.manager)

def addByLayer (a b : List Int) : List Int :=
  (range (max a.length b.length)).map fun i => a.getD i 0 + b.getD i 0

variable (hooks : ChainManager μ κ)

def outstandingOf (m : μ) (r : ChainRecord ι φ δ) : Except PyError (List Int × Int) := do
  if r.reservedSlotsByLayer = [] ∧ r.reservedRows ≤ 0 then return ([], 0)
  else
    let resident := hooks.hasResidency m r.seqId
    let current ←
      if resident then (hooks.capacityResidency.getD hooks.physicalResidency) m r.seqId
      else .ok r.allocatedCapacity
    let slots := (range r.reservedSlotsByLayer.length).map fun i =>
      max 0 (r.reservedSlotsByLayer.getD i 0 -
        max 0 (current.getD i 0 - r.allocatedCapacity.getD i 0))
    return (slots, max 0 (r.reservedRows - if resident then 1 else 0))

/-- The loop of `_outstanding_active_reservations`. -/
def sumOutstanding (m : μ) : List (ChainRecord ι φ δ) → List Int → Int →
    Except PyError (List Int × Int)
  | [], slots, rows => .ok (slots, rows)
  | r :: records, slots, rows => do
    let (more, moreRows) ← outstandingOf hooks m r
    sumOutstanding m records (addByLayer slots more) (rows + moreRows)

variable [LinearOrder ι]

/-- The records of `active_records`. -/
def activeChains (index : ChainCacheIndex ι φ δ) : List (ChainRecord ι φ δ) :=
  index.activeRecords.keys.filterMap index.records.get?

def outstandingActiveReservations (s : ChainRuntime ι φ δ μ κ) : Except PyError (List Int × Int) :=
  sumOutstanding hooks s.manager (activeChains s.index) [] 0

variable (cfg : ChainRuntimeConfig φ δ)

omit [LinearOrder ι] in
/-- `if self.offload is not None`. -/
def whenOffload (m : RuntimeM ι φ δ μ κ Unit) : RuntimeM ι φ δ μ κ Unit :=
  match cfg.capacityBytes with
  | none => pure ()
  | some _ => m

variable (chainId : ι)

def admissionRequirements (tokenCount : Nat) (decodeReserved : List Int)
    (polled : Nat) : RuntimeM ι φ δ μ κ CapacityAnswer := do
  whenOffload cfg (onOffload (PyM.modify (ChainOffload.poll polled)))
  let s ← PyM.get
  let record := s.index.records.get? chainId
  let (outstanding, rows) ← PyM.lift (outstandingActiveReservations hooks s)
  return hooks.capacityDeficits s.manager
    { suffixTokens := tokenCount - record.elim 0 (·.processedTokenCount)
      existingSlotsByLayer := record.elim [] (·.allocatedCapacity)
      outstandingReservedSlotsByLayer := addByLayer outstanding decodeReserved
      outstandingReservedRows := rows
      needsResidentRow := record.elim true fun r => decide (r.residentRows = 0) }

def hasSnapshot (s : ChainRuntime ι φ δ μ κ) (chainId : ι) : Bool :=
  (s.index.records.get? chainId).elim false fun r => s.offload.snapshots.contains r.seqId

def offloadPlan (plan : ChainAdmissionPlan ι) : RuntimeM ι φ δ μ κ (ChainAdmissionPlan ι) :=
  match cfg.capacityBytes with
  | none => pure plan
  | some _ => do
    let s ← PyM.get
    raiseIf (∃ id ∈ plan.victimChainIds, s.index.records.contains id = false) (.keyError "chain_id")
    return { plan with
      demoteChainIds := plan.victimChainIds.filter (hasSnapshot s)
      victimChainIds := plan.victimChainIds.filter fun id => ! hasSnapshot s id }

variable [DecidableEq φ] [DecidableEq δ]

/-- What `plan_admission` and `validate_admission_plan` share. -/
def planWith (seqId : Nat) (input : PrefixInput δ)
    (decodeReserved : List Int) (polled : Nat) : RuntimeM ι φ δ μ κ (ChainAdmissionPlan ι) := do
  let answer ← admissionRequirements hooks cfg chainId input.inputTokenCount decodeReserved polled
  let plan ← onIndex (ChainCacheIndex.planAdmission cfg.index
    { chainId := chainId
      seqId := seqId
      input := input
      fingerprint := cfg.fingerprint
      requiredSlotsByLayer := answer.slotDeficits
      rowDeficit := answer.rowDeficit
      reservedSlotsByLayer := answer.requiredSlots
      reservedRows := answer.requiredRows })
  let plan ← offloadPlan cfg plan
  return { plan with decodeReservedSlotsByLayer := decodeReserved }

def planAdmission (seqId : Nat) (tokenIds : List Int) (polled : Nat) :
    RuntimeM ι φ δ μ κ (ChainAdmissionPlan ι) := do
  let s ← PyM.get
  planWith hooks cfg chainId seqId (.tokens tokenIds) (hooks.decodeReserved s.manager) polled

/-- The plan that `validate_admission_plan` makes. -/
def planAdmissionDigest (seqId : Nat) (inputTokenCount : Nat) (inputPrefixDigest : δ)
    (decodeReserved : List Int) (polled : Nat) : RuntimeM ι φ δ μ κ (ChainAdmissionPlan ι) :=
  planWith hooks cfg chainId seqId (.digest inputTokenCount inputPrefixDigest) decodeReserved polled

def divergedPlan : PyError :=
  .runtimeError "Chain-cache admission plan diverged from the rank-0 plan"

def validateAdmissionPlan (expected : ChainAdmissionPlan ι) (inputTokenCount : Nat)
    (inputPrefixDigest : δ) (polled : Nat) : RuntimeM ι φ δ μ κ (ChainAdmissionPlan ι) := do
  let plan ← planAdmissionDigest hooks cfg expected.chainId expected.seqId inputTokenCount
    inputPrefixDigest expected.decodeReservedSlotsByLayer polled
  raiseIf (plan ≠ expected) divergedPlan
  return plan

section

omit [DecidableEq φ] [DecidableEq δ] [LinearOrder ι]

def requiredBytes (m : μ) (seqId : Nat) (state : κ) : Except PyError Nat := do
  let lengths ← hooks.physicalResidency m seqId
  return hooks.methodBytes state +
    (zipWith (fun bytes length => length.toNat * bytes) hooks.tokenBytes lengths).sum

/-- The error of a `save` that has no room on the host. -/
def capacityNotReserved : PyError :=
  .runtimeError "Chain host capacity must be reserved before D2H submission."

def save (capacity : Nat) (seqId : Nat) (state : κ) (polled : Nat) : RuntimeM ι φ δ μ κ Unit := do
  let s ← PyM.get
  raiseIf (hooks.streamCapturing s.manager = true)
    (.runtimeError "Chain offload is forbidden during graph capture.")
  onOffload (PyM.modify (ChainOffload.poll polled))
  let nbytes ← query (requiredBytes hooks · seqId state)
  let s ← PyM.get
  raiseIf ((capacity : Int) < s.offload.usedBytes - s.offload.snapshotBytes seqId + nbytes)
    capacityNotReserved
  let lengths ← query (hooks.physicalResidency · seqId)
  onOffload (ChainOffload.drop seqId)
  onManager (hooks.submitCopy seqId state)
  onOffload (PyM.modify (ChainOffload.store seqId
    { kvLengths := lengths, method := state, nbytes := nbytes }))

def restore (seqId : Nat) : RuntimeM ι φ δ μ κ Unit := do
  let s ← PyM.get
  raiseIf (hooks.streamCapturing s.manager = true)
    (.runtimeError "Chain restore is forbidden during graph capture.")
  let snapshot ← onOffload (ChainOffload.wait seqId)
  raiseIf (snapshot.valid = false) (.runtimeError "Cannot restore an invalid chain snapshot.")
  raiseIf (hooks.hasResidency s.manager seqId = true)
    (.runtimeError "Cannot restore over a resident chain.")
  raiseIf (snapshot.kvLengths.length ≠ hooks.numKvLayers)
    (.runtimeError "Chain snapshot does not cover the runtime KV layers.")
  onManager (hooks.allocateChainRestore seqId snapshot.kvLengths)
  tryExcept (onManager (hooks.restoreCopy seqId snapshot.method)) fun e => do
    onManager (PyM.modify (hooks.freeSeq seqId))
    raise e

end

section

omit [DecidableEq φ] [DecidableEq δ]

variable (r : ChainRecord ι φ δ)

def writeRecord : RuntimeM ι φ δ μ κ Unit :=
  onIndex (PyM.modify (setRecord r))

/-- The demotion of a victim in `apply_admission`. -/
def demoteVictim (chainId : ι) : RuntimeM ι φ δ μ κ Unit := do
  let victim ← onIndex (lookup chainId)
  raiseIf (victim.state ≠ .idle) (ChainErrorClass.busy.error "Cannot demote an ACTIVE chain.")
  let snapshot ← onOffload (ChainOffload.wait victim.seqId)
  raiseIf (snapshot.valid = false)
    (.runtimeError "Cannot demote a chain without a valid CPU snapshot.")
  onManager (PyM.modify (hooks.freeSeq victim.seqId))
  writeRecord { victim with residentRows := 0 }

def dropVictim (chainId : ι) : RuntimeM ι φ δ μ κ Unit := do
  let victim ← onIndex (lookup chainId)
  onOffload (ChainOffload.drop victim.seqId)

def applyAdmission (plan : ChainAdmissionPlan ι) : RuntimeM ι φ δ μ κ (ChainRecord ι φ δ) := do
  whenOffload cfg do
    forEach (demoteVictim hooks) plan.demoteChainIds
    forEach dropVictim plan.victimChainIds
  onIndex (ChainCacheIndex.applyAdmission cfg.index plan cfg.fingerprint)

def prepareResumedChain : RuntimeM ι φ δ μ κ Unit :=
  whenOffload cfg do
    if r.residentRows = 0 then do
      restore hooks r.seqId
      writeRecord
        { r with
          residentRows := 1
          reservedSlotsByLayer :=
            zipWith (· - ·) r.reservedSlotsByLayer r.physicalSlotsByLayer
          reservedRows := 0 }
      onOffload (ChainOffload.invalidate r.seqId)
    else onOffload (ChainOffload.invalidate r.seqId)

/-- The order of the candidates of `save_finished_chain`. -/
def dropLe (r q : ChainRecord ι φ δ) : Prop :=
  (r.state = .active ∧ q.state ≠ .active) ∨
    ((r.state = .active ↔ q.state = .active) ∧ lruLe r q)

instance : DecidableRel (dropLe (ι := ι) (φ := φ) (δ := δ)) := fun _ _ =>
  inferInstanceAs (Decidable (_ ∨ _ ∧ _))

/-- The candidates of `save_finished_chain`. -/
def dropCandidates (s : ChainRuntime ι φ δ μ κ) (chainId : ι) : List (ChainRecord ι φ δ) :=
  (s.index.records.values.filter fun r =>
    decide (r.chainId ≠ chainId) && s.offload.snapshots.contains r.seqId).insertionSort dropLe

/-- The loop of `save_finished_chain`. -/
def makeRoom (capacity : Nat) (oldBytes required : Nat) :
    List (ChainRecord ι φ δ) → RuntimeM ι φ δ μ κ Unit
  | [] => pure ()
  | victim :: candidates => do
    let s ← PyM.get
    if (capacity : Int) < s.offload.usedBytes - oldBytes + required then do
      onOffload (ChainOffload.drop victim.seqId)
      if victim.residentRows = 0 then do
        let _ ← onIndex (evict cfg.index victim.chainId)
        makeRoom capacity oldBytes required candidates
      else makeRoom capacity oldBytes required candidates
    else return

def saveFinishedChain (polled : Nat) : RuntimeM ι φ δ μ κ Unit :=
  match cfg.capacityBytes with
  | none => pure ()
  | some capacity => do
    let state ← onManager (hooks.snapshotMethodState r.seqId)
    let required ← query (requiredBytes hooks · r.seqId state)
    raiseIf (capacity < required)
      (ChainErrorClass.capacity.error "Whole-chain CPU snapshot needs more than the host budget.")
    let s ← PyM.get
    makeRoom cfg capacity (s.offload.snapshotBytes r.seqId) required (dropCandidates s r.chainId)
    save hooks capacity r.seqId state polled

def finishValues (chainId : ι) (seqId : Nat) (digest : δ) (processedTokenCount : Nat) :
    RuntimeM ι φ δ μ κ (ChainRecord ι φ δ) := do
  let r ← onIndex (lookup chainId)
  raiseIf (r.seqId ≠ seqId) (ChainErrorClass.ownerMismatch.error "Chain owner mismatch")
  let physical ← query (hooks.physicalResidency · seqId)
  let capacity ← query fun m =>
    match hooks.capacityResidency with
    | none => .ok none
    | some hook => (hook m seqId).map some
  onIndex (finishDigest cfg.index chainId
    { processedTokenDigest := digest
      processedTokenCount := processedTokenCount
      physicalSlotsByLayer := physical
      capacitySlots := capacity })

def invalidate (chainId : ι) : RuntimeM ι φ δ μ κ (ChainRecord ι φ δ) := do
  whenOffload cfg (dropVictim chainId)
  onIndex (ChainCacheIndex.invalidate cfg.index chainId)

def abandonResumption (plan : ChainAdmissionPlan ι) (chainId : ι) : RuntimeM ι φ δ μ κ Unit := do
  let s ← PyM.get
  match plan.status, s.index.records.get? chainId with
  | .resumed, some r =>
    onIndex (setRecordState
      { r with reservedSlotsByLayer := [], reservedRows := 0 } .idle)
  | _, _ => pure ()

/-- What `on_forward_end` does to the record of a sequence whose prompt is complete. -/
def completePrompt (chainId : ι) : RuntimeM ι φ δ μ κ Unit := do
  let r ← onIndex (lookup chainId)
  writeRecord { r with reservedSlotsByLayer := [], reservedRows := 0 }

def victimSeqIds (chainIds : List ι) : RuntimeM ι φ δ μ κ (List Nat) := do
  let s ← PyM.get
  PyM.lift (chainIds.mapM fun id => do
    let r ← (lookup id s.index).1
    return r.seqId)

def chainApplyAdmission (plan : ChainAdmissionPlan ι) : RuntimeM ι φ δ μ κ (ChainRecord ι φ δ) := do
  let victims ← victimSeqIds plan.victimChainIds
  let r ← applyAdmission hooks cfg plan
  forEach (fun id => do
    let _ ← onIndex (lookup id)) plan.demoteChainIds
  onManager (forEach (fun seqId => PyM.modify (hooks.freeSeqPayload seqId)) victims)
  tryExcept (prepareResumedChain hooks cfg r) fun e => do
    abandonResumption plan r.chainId
    raise e
  return r

/-- The part of `chain_finish` that may leave a half-finished turn. -/
def finishTurn (chainId : ι) (seqId : Nat) (digest : δ) (processedTokenCount : Nat) :
    RuntimeM ι φ δ μ κ (ChainRecord ι φ δ) := do
  onManager (hooks.onChainTurnFinished seqId processedTokenCount)
  onManager (PyM.modify (hooks.releaseDecode seqId))
  finishValues hooks cfg chainId seqId digest processedTokenCount

def chainFinish (chainId : ι) (seqId : Nat) (digest : δ) (processedTokenCount : Nat) (polled : Nat) :
    RuntimeM ι φ δ μ κ (ChainRecord ι φ δ) := do
  let r ← onIndex (lookup chainId)
  raiseIf (r.seqId ≠ seqId) (ChainErrorClass.ownerMismatch.error "Chain owner mismatch")
  raiseIf (r.state ≠ .active) (ChainErrorClass.busy.error "Only an ACTIVE chain turn may finish.")
  tryExcept (do
    let finished ← finishTurn hooks cfg chainId seqId digest processedTokenCount
    saveFinishedChain hooks cfg finished polled
    return finished) fun e => do
      let _ ← invalidate cfg chainId
      onManager (PyM.modify (hooks.freeSeqPayload seqId))
      raise e

def chainReclaimIdle (chainId : ι) (expectedSeqId : Nat) (demote : Bool) :
    RuntimeM ι φ δ μ κ Unit := do
  let r ← onIndex (lookup chainId)
  raiseIf (r.seqId ≠ expectedSeqId)
    (ChainErrorClass.ownerMismatch.error "Chain owner changed before reclaim")
  raiseIf (r.state ≠ .idle) (ChainErrorClass.busy.error "Cannot reclaim an ACTIVE chain.")
  let s ← PyM.get
  raiseIf (r.residentRows ≤ 0 ∨ hooks.hasResidency s.manager r.seqId = false)
    (.runtimeError "Chain has no resident KV to reclaim.")
  if demote then do
    raiseIf (cfg.capacityBytes = none)
      (.runtimeError "Cannot demote a chain without a valid CPU snapshot.")
    let snapshot ← onOffload (ChainOffload.wait r.seqId)
    raiseIf (snapshot.valid = false)
      (.runtimeError "Cannot demote a chain without a valid CPU snapshot.")
    onManager (PyM.modify (hooks.freeSeqPayload r.seqId))
    writeRecord { r with residentRows := 0 }
  else do
    whenOffload cfg (onOffload (ChainOffload.drop r.seqId))
    onManager (PyM.modify (hooks.freeSeqPayload r.seqId))
    let _ ← onIndex (evict cfg.index chainId)

def chainInvalidate (chainId : ι) (expectedSeqId : Option Nat) : RuntimeM ι φ δ μ κ Unit := do
  let r ← onIndex (lookup chainId)
  raiseIf (∃ seqId ∈ expectedSeqId, r.seqId ≠ seqId)
    (ChainErrorClass.ownerMismatch.error "Chain owner mismatch")
  let r ← invalidate cfg chainId
  onManager (PyM.modify (hooks.freeSeqPayload r.seqId))

def reset : RuntimeM ι φ δ μ κ Unit := do
  whenOffload cfg (onOffload ChainOffload.reset)
  onIndex ChainCacheIndex.reset

end

end ChainRuntime

end SparseEngine
