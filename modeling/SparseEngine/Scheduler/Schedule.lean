import SparseEngine.Lib.Dict
import SparseEngine.Scheduler.Chunks
import SparseEngine.Scheduler.Sequence

/-! `Scheduler`: the queues of waiting and decoding sequences. -/

namespace SparseEngine

open PyM

structure OracleWorld (ω : Type) where
  oracle : ω
  seqs : Nat → Sequence

abbrev Budgets := Dict String Int

/-- `MemoryOracle`. -/
structure MemoryOracle (ω κ ρ : Type) where
  monotonic : ω → Int
  numFreeSlots : PyM (OracleWorld ω) Int
  reserveDecodeWindows : List Nat → List Nat → PyM (OracleWorld ω) (Option Nat)
  prefillBatchedTokensMargin : PyM (OracleWorld ω) Int
  remainingPrefillTokens : Nat → PyM (OracleWorld ω) Int
  prefillExecutionMode : Nat → PyM (OracleWorld ω) Scheduler.PrefillExecution
  prefillBatchCompatibilityKey : Nat → PyM (OracleWorld ω) κ
  resetPrefillExecutionState : Nat → PyM (OracleWorld ω) Unit
  completePrefillExecution : Nat → PyM (OracleWorld ω) Unit
  reservedPrefillSlots : List Nat → Int → PyM (OracleWorld ω) Int
  shouldScheduleFullPrefill : Nat → PyM (OracleWorld ω) Bool
  prefillStepFreeSlots : PyM (OracleWorld ω) Int
  prefillStepFreeSlotsFor : Nat → PyM (OracleWorld ω) Int
  prefillPrivateSlotsFor : Nat → PyM (OracleWorld ω) Int
  minFinalPrefillChunkSize : Nat → PyM (OracleWorld ω) Int
  prefillStepReservationCost : Nat → Int → PyM (OracleWorld ω) Int
  decodeStepFreeSlots : PyM (OracleWorld ω) Int
  decodeStepFreeSlotsFor : Nat → PyM (OracleWorld ω) Int
  decodeStepReservationCost : Nat → PyM (OracleWorld ω) Int
  stepAllocationBudgets : Bool → PyM (OracleWorld ω) (Option Budgets)
  stepAllocationCosts : Nat → Int → PyM (OracleWorld ω) Budgets
  promptAdmissionFreeSlots : PyM (OracleWorld ω) Int
  promptAdmissionBudgets : List Nat → Int → PyM (OracleWorld ω) Budgets
  promptAdmissionCosts : Nat → PyM (OracleWorld ω) Budgets
  promptAdmissionSharedCosts : Nat → PyM (OracleWorld ω) (Dict String (List (ρ × Int)))
  promptLogicalReservationCost : Nat → PyM (OracleWorld ω) Int
  promptAdmissionFailureAction : PyM (OracleWorld ω) String
  onPromptAdmitted : Nat → Budgets → PyM (OracleWorld ω) Unit
  clearPrefixCacheHit : Nat → PyM (OracleWorld ω) Unit
  enterCapacitySnapshot : PyM (OracleWorld ω) Unit
  exitCapacitySnapshot : PyM (OracleWorld ω) Unit
  freeSlotStats : PyM (OracleWorld ω) Unit
  debugLiveSeqSlots : PyM (OracleWorld ω) Unit
  prefixCacheHitRefresher : Nat → PyM (OracleWorld ω) Unit
  prefixCacheHitsRefresher : Option (List Nat → PyM (OracleWorld ω) Unit)
  decodeCapacityReclaimer : Option (Nat → List Nat → List Nat → PyM (OracleWorld ω) (Option Nat))
  prefillCapacityReclaimer : Option (Nat → List Nat → PyM (OracleWorld ω) Bool)

/-- What a scheduler is created with. -/
structure SchedulerConfig where
  maxNumSeqsInBatch : Int
  maxNumBatchedTokens : Int
  maxDecodingSeqs : Nat
  favorMinDecodingSeqs : Nat := 0
  enginePrefillChunkSize : Int
  eosTokenIds : List Int := []
  debugSlots : Bool := false

inductive SchedulerPhase
  | prefill
  | decode
deriving DecidableEq, Repr

inductive PhaseReason
  | prefillPriority
  | prefillWaitTimeout
  | prefillContinue
  | decodeBelowThreshold
  | noPrefill
  | decodeAffinity
  | prefillUnavailable
deriving DecidableEq, Repr

/-- The state of a `Scheduler`. -/
structure SchedulerState (ω : Type) where
  world : OracleWorld ω
  waiting : List Nat := []
  decoding : List Nat := []
  phase : SchedulerPhase := .prefill
  phaseReason : PhaseReason := .prefillPriority
  phaseStartedAt : Int := 0
  prefillWaitSince : Dict Nat Int := .empty
  admissionDeferWarned : List Nat := []
  totalPreemptions : Nat := 0
  totalRecomputeReplays : Nat := 0
  asyncInflight : Nat := 0

/-- What `schedule` returns. -/
structure ScheduleResult where
  seqs : List Nat
  isPrefill : Bool
  preempted : List Nat
deriving DecidableEq, Repr

namespace SchedulerState

abbrev SchedM (ω : Type) := PyM (SchedulerState ω)

variable {ω κ ρ α : Type}

def hook (m : PyM (OracleWorld ω) α) : SchedM ω α :=
  zoom (·.world) (fun world s => { s with world := world }) m

def seqAt (s : SchedulerState ω) (id : Nat) : Sequence := s.world.seqs id

/-- `time.monotonic`. -/
def now (hooks : MemoryOracle ω κ ρ) (s : SchedulerState ω) : Int := hooks.monotonic s.world.oracle

def updateSeq (id : Nat) (f : Sequence → Sequence) (s : SchedulerState ω) : SchedulerState ω :=
  { s with
    world := { s.world with seqs := Function.update s.world.seqs id (f (s.world.seqs id)) } }

/-- `deque.remove` on the decoding queue. -/
def removeDecoding (id : Nat) : SchedM ω Unit := do
  let s ← PyM.get
  raiseIf (id ∉ s.decoding) (.valueError "deque.remove(x): x not in deque")
  PyM.modify fun s => { s with decoding := s.decoding.erase id }

/-- `_prefill_wait_since.setdefault`. -/
def noteWaiting (now : Int) (id : Nat) (s : SchedulerState ω) : SchedulerState ω :=
  { s with
    prefillWaitSince :=
      if s.prefillWaitSince.contains id then s.prefillWaitSince else s.prefillWaitSince.set id now }

def asyncDrainRequired (message : String) : PyError := .custom 20 message

variable (cfg : SchedulerConfig) (hooks : MemoryOracle ω κ ρ)

def prefillPriority (seq : Sequence) (replayPending : Bool) : Nat :=
  if replayPending = false then 0
  else if 0 < seq.numPrefilledTokens ∧ seq.numPrefilledTokens < seq.numPromptTokens then
    if seq.isRecomputeReplay then 1 else 0
  else if seq.isRecomputeReplay then 2 else 3

def mayPrefill (s : SchedulerState ω) (replayPending : Bool) (id : Nat) : Bool :=
  !(replayPending && decide (prefillPriority (s.seqAt id) replayPending = 3)) &&
    !(decide (cfg.maxDecodingSeqs ≤ s.decoding.length) &&
      decide ((s.seqAt id).numPrefilledTokens = 0))

def prefillBatchKey (id : Nat) : SchedM ω (Scheduler.PrefillExecution × κ) := do
  let mode ← hook (hooks.prefillExecutionMode id)
  let compatibility ← hook (hooks.prefillBatchCompatibilityKey id)
  return (mode, compatibility)

def isFresh (seq : Sequence) : Bool :=
  decide (seq.numPrefilledTokens = 0) && decide (seq.numCompletionTokens = 0)

/-- The batched refresh of `_prefill_mode_order`. -/
def refreshPrefixHits (candidates : List Nat) : SchedM ω Unit := do
  let s ← PyM.get
  let fresh := candidates.filter fun id => isFresh (s.seqAt id)
  match hooks.prefixCacheHitsRefresher with
  | none => pure ()
  | some refresh => if fresh = [] then pure () else hook (refresh fresh)

/-- `_refresh_prefill_metadata`. -/
def refreshPrefillMetadata (id : Nat) : SchedM ω Unit := do
  let s ← PyM.get
  if hooks.prefixCacheHitsRefresher.isNone ∧ isFresh (s.seqAt id) then
    hook (hooks.prefixCacheHitRefresher id)
  else pure ()

structure PrefillBucket (κ : Type) where
  priority : Nat
  mode : Scheduler.PrefillExecution
  compatibility : κ
deriving DecidableEq

variable [DecidableEq κ]

/-- The loop of `_prefill_mode_order`. -/
def collectModes (replayPending : Bool) :
    List Nat → List (PrefillBucket κ) → SchedM ω (List (PrefillBucket κ))
  | [], modes => pure modes
  | id :: candidates, modes => do
    refreshPrefillMetadata hooks id
    let s ← PyM.get
    let (mode, compatibility) ← prefillBatchKey hooks id
    let bucket : PrefillBucket κ := ⟨prefillPriority (s.seqAt id) replayPending, mode, compatibility⟩
    collectModes replayPending candidates (if bucket ∈ modes then modes else modes ++ [bucket])

def replayPending (s : SchedulerState ω) : Bool :=
  s.waiting.any fun id => (s.seqAt id).isRecomputeReplay

def prefillModeOrder : SchedM ω (List (PrefillBucket κ)) := do
  let s ← PyM.get
  let pending := s.replayPending
  let candidates := s.waiting.filter (mayPrefill cfg s pending)
  refreshPrefixHits hooks candidates
  let s ← PyM.get
  collectModes hooks pending (candidates.insertionSort fun a b =>
    prefillPriority (s.seqAt a) pending ≤ prefillPriority (s.seqAt b) pending) []

def belongsTo (bucket : PrefillBucket κ) (pending : Bool) (id : Nat) : SchedM ω Bool := do
  let s ← PyM.get
  if prefillPriority (s.seqAt id) pending = bucket.priority ∧ mayPrefill cfg s pending id then do
    let (mode, compatibility) ← prefillBatchKey hooks id
    return decide (mode = bucket.mode ∧ compatibility = bucket.compatibility)
  else return false

/-- The loop of `_pop_next_prefill_seq` over the waiting queue. -/
def popNextPrefillSeq (bucket : PrefillBucket κ) (pending : Bool) :
    List Nat → PyM (SchedulerState ω × List Nat) (Option Nat)
  | [] => pure none
  | id :: rest => do
    let eligible ← outer (belongsTo cfg hooks bucket pending id)
    if eligible then do
      PyM.modify fun t => ({ t.1 with waiting := t.1.waiting.tail }, t.2)
      return some id
    else do
      PyM.modify fun t => ({ t.1 with waiting := t.1.waiting.tail }, t.2 ++ [id])
      popNextPrefillSeq bucket pending rest

section

omit [DecidableEq κ]

variable (id : Nat)

def fitsBudgets (budgets : Budgets) (tokens : Int) : SchedM ω Bool := do
  let costs ← hook (hooks.stepAllocationCosts id tokens)
  return costs.entries.all fun cost => decide (cost.2 ≤ (budgets.get? cost.1).getD 0)

/-- The binary search of `_max_step_allocation_tokens`. -/
def searchBudgets (id : Nat) (budgets : Budgets) (low high : Int) : SchedM ω Int :=
  if h : low < high then do
    let fits ← fitsBudgets hooks id budgets ((low + high + 1) / 2)
    if fits then searchBudgets id budgets ((low + high + 1) / 2) high
    else searchBudgets id budgets low ((low + high + 1) / 2 - 1)
  else pure low
termination_by (high - low).toNat
decreasing_by all_goals omega

def maxStepAllocationTokens (limit : Int) : Option Budgets → SchedM ω Int
  | none => pure limit
  | some budgets =>
    if limit ≤ 0 then pure limit
    else do
      let fits ← fitsBudgets hooks id budgets limit
      if fits then pure limit else searchBudgets hooks id budgets 0 limit

/-- `budgets[name] -= need` for every cost. -/
def chargeAll (budgets : Budgets) : List (String × Int) → Except PyError Budgets
  | [] => .ok budgets
  | (name, need) :: costs =>
    match budgets.get? name with
    | none => .error (.keyError name)
    | some free => chargeAll (budgets.set name (free - need)) costs

def chargeStepAllocations (tokens : Int) :
    Option Budgets → SchedM ω (Option Budgets)
  | none => pure none
  | some budgets => do
    let costs ← hook (hooks.stepAllocationCosts id tokens)
    let budgets ← PyM.lift (chargeAll budgets costs.entries)
    return some budgets

def decodeBlocked (free cost : Int) (budgets : Option Budgets) : SchedM ω Bool :=
  if free < cost then pure true
  else do
    let tokens ← maxStepAllocationTokens hooks id 1 budgets
    return decide (tokens = 0)

def outputPending (seq : Sequence) : Bool :=
  decide (seq.maxTokens ≤ seq.numCompletionTokens + seq.numPendingOutputs)

/-- The loop of `_eligible_decode_batch`. -/
def eligibleDecodeLoop : List Nat → Int → Option Budgets → List Nat → SchedM ω (List Nat)
  | [], _, _, batch => pure batch
  | id :: rest, free, budgets, batch => do
    let s ← PyM.get
    if outputPending (s.seqAt id) then eligibleDecodeLoop rest free budgets batch
    else do
      let cost ← hook (hooks.decodeStepReservationCost id)
      let own ← hook (hooks.decodeStepFreeSlotsFor id)
      let blocked ← decodeBlocked hooks id (min free own) cost budgets
      if blocked then
        if free ≤ 0 then pure batch else eligibleDecodeLoop rest free budgets batch
      else do
        let budgets ← chargeStepAllocations hooks id 1 budgets
        if batch.length + 1 = cfg.maxDecodingSeqs then pure (batch ++ [id])
        else eligibleDecodeLoop rest (free - cost) budgets (batch ++ [id])

def eligibleDecodeBatch : SchedM ω (List Nat) := do
  let s ← PyM.get
  if s.decoding = [] then pure []
  else do
    let free ← hook hooks.decodeStepFreeSlots
    let budgets ← hook (hooks.stepAllocationBudgets false)
    eligibleDecodeLoop cfg hooks s.decoding (max 0 free) budgets []

def reservedPrefillTokens : SchedM ω Int := do
  let s ← PyM.get
  hook (hooks.reservedPrefillSlots s.waiting cfg.enginePrefillChunkSize)

def returnVictim (victim : Nat) (scheduled : List Nat) (e : PyError) : SchedM ω ScheduleResult := do
  PyM.modify fun s => { s with decoding := scheduled ++ victim :: s.decoding }
  raise e

def debugHook (m : PyM (OracleWorld ω) α) : SchedM ω Unit :=
  if cfg.debugSlots then do
    let _ ← hook m
  else pure ()

def soleDecode (s : SchedulerState ω) (victim : Nat) : Bool :=
  let seq := s.seqAt victim
  decide (0 < seq.numCompletionTokens) && decide (s.decoding = []) &&
    !(s.replayPending && decide (seq.decodeProgressCheckpoint < seq.numCompletionTokens))

def resetVictim (victim : Nat) (s : SchedulerState ω) : SchedulerState ω :=
  if 0 < (s.seqAt victim).numCompletionTokens then
    { updateSeq victim Sequence.startRecomputeReplay s with
      totalRecomputeReplays := s.totalRecomputeReplays + 1 }
  else updateSeq victim Sequence.restartPrefill s

def checkpointSurvivors (s : SchedulerState ω) : SchedulerState ω :=
  s.decoding.foldl (fun s id =>
    updateSeq id Sequence.checkpointProgress s) s

/-- `_preempt_decode_victim` of a victim that was taken from the decoding queue. -/
def preemptDecodeVictim (victim : Nat) (scheduled preempted : List Nat) :
    SchedM ω ScheduleResult := do
  let s ← PyM.get
  if s.asyncInflight ≠ 0 then
    returnVictim victim scheduled
      (asyncDrainRequired "Preemption requires completed in-flight KV users")
  else if soleDecode s victim then
    returnVictim victim scheduled
      (.runtimeError "KV cache is too small for the sole remaining decode request")
  else do
    debugHook cfg hooks.numFreeSlots
    PyM.modify (resetVictim victim)
    PyM.modify checkpointSurvivors
    hook (hooks.clearPrefixCacheHit victim)
    hook (hooks.resetPrefillExecutionState victim)
    PyM.modify fun s =>
      { noteWaiting (s.now hooks) victim s with
        waiting := s.waiting ++ [victim]
        decoding := scheduled ++ s.decoding
        totalPreemptions := s.totalPreemptions + 1 }
    hook hooks.freeSlotStats
    return { seqs := [], isPrefill := false, preempted := preempted ++ [victim] }

def reclaimDecodeCapacity (reclaimer : Nat → List Nat → List Nat → PyM (OracleWorld ω) (Option Nat))
    (failure : Nat) : SchedM ω (Option Nat) := do
  let s ← PyM.get
  raiseIf (s.asyncInflight ≠ 0)
    (asyncDrainRequired "Decode capacity reclaim requires completed in-flight KV users")
  hook (reclaimer failure s.decoding s.waiting)

/-- What the prefill phase of `_schedule_impl` keeps beside the state. -/
structure PrefillLocals (ρ : Type) where
  scheduled : List Nat := []
  numBatchedSeqs : Int := 0
  numBatchedTokens : Int := 0
  marginBatchedTokens : Int := 0
  stepFreeCount : Int
  promptLogicalFree : Int := 0
  admissionBudgets : Budgets := .empty
  allocationBudgets : Option Budgets := none
  deferredPrompt : Option Nat := none
  blockedStep : Option Nat := none
  blockedCapacity : Option Nat := none
  blockedFinalWindow : Option Nat := none
  chargedShared : Dict String (List ρ) := .empty

variable (mode : Scheduler.PrefillExecution)

def canContinuePrefillBatch (l : PrefillLocals ρ)
    (s : SchedulerState ω) : Bool :=
  !s.waiting.isEmpty && !(l.scheduled.head?.any fun first => (s.seqAt first).isRecomputeReplay) &&
    if mode = .rawOffload then l.scheduled.isEmpty && decide (0 < l.stepFreeCount)
    else
      decide (l.numBatchedTokens ≤ cfg.maxNumBatchedTokens - l.marginBatchedTokens) &&
        decide (l.numBatchedSeqs < cfg.maxNumSeqsInBatch)

def respectMinFinalPrefillChunk (id : Nat) (remaining proposed : Int) : SchedM ω Int := do
  let minFinal ← hook (hooks.minFinalPrefillChunkSize id)
  raiseIf (minFinal < 0) (.valueError "min_final_prefill_chunk_size must be non-negative")
  return Scheduler.respectMinFinalPrefillChunk minFinal.toNat remaining proposed

/-- What a candidate could prefill in this step. -/
structure CandidateChunk where
  remaining : Int
  proposed : Int
  chunk : Int
  freeCount : Int

def candidateFreeCount (stepFreeCount : Int) (id : Nat)
    (own : Int) (staging : Bool) : SchedM ω Int :=
  if mode ≠ .rawOffload ∧ staging = false then do
    let shared ← hook (hooks.prefillPrivateSlotsFor id)
    return min (stepFreeCount + shared) own
  else pure own

def candidateChunk (l : PrefillLocals ρ) (id : Nat) :
    SchedM ω CandidateChunk := do
  let remaining ← hook (hooks.remainingPrefillTokens id)
  let own ← hook (hooks.prefillStepFreeSlotsFor id)
  let staging ← hook (hooks.shouldScheduleFullPrefill id)
  let free ← candidateFreeCount hooks mode l.stepFreeCount id own staging
  raiseIf (remaining ≤ 0) (.valueError "BUG: a prefilled sequence is in waiting")
  let s ← PyM.get
  let tokens := Scheduler.prefillStepTokens
    { mode := mode
      freeSlots := own
      stepFreeCount := l.stepFreeCount
      remainingPrefillTokens := remaining
      prefillStageRemaining := (s.seqAt id).prefillStageRemaining
      maxNumBatchedTokens := cfg.maxNumBatchedTokens
      numBatchedTokens := l.numBatchedTokens
      enginePrefillChunkSize := cfg.enginePrefillChunkSize } free
  let allocation ← maxStepAllocationTokens hooks id tokens l.allocationBudgets
  let proposed :=
    if mode = .chunked then allocation else if allocation < tokens then 0 else tokens
  let chunk ← respectMinFinalPrefillChunk hooks id remaining proposed
  return {
    remaining := remaining
    proposed := proposed
    chunk := chunk
    freeCount := if 0 < tokens ∧ allocation < tokens then min free allocation else free }

def rejectCandidate (l : PrefillLocals ρ) (id : Nat)
    (c : CandidateChunk) : SchedM ω (PrefillLocals ρ) := do
  let minFinal ← hook (hooks.minFinalPrefillChunkSize id)
  PyM.modify fun s => { s with waiting := s.waiting ++ [id] }
  return { l with
    blockedFinalWindow :=
      if 0 < minFinal ∧ c.remaining ≤ minFinal ∧ c.proposed < c.remaining then
        l.blockedFinalWindow.or (some id)
      else l.blockedFinalWindow
    blockedCapacity :=
      if c.freeCount ≤ 0 ∧ 0 < l.stepFreeCount then l.blockedCapacity.or (some id)
      else l.blockedCapacity
    blockedStep := if mode = .full then some id else l.blockedStep }

variable [DecidableEq ρ]

def chargedBefore (charged : Dict String (List ρ)) (name : String) (resources : List (ρ × Int)) : Int :=
  ((resources.filter fun r => decide (r.1 ∈ (charged.get? name).getD [])).map (·.2)).sum

def adjustedCosts (charged : Dict String (List ρ)) (costs : Budgets) :
    List (String × List (ρ × Int)) → Except PyError Budgets
  | [] => .ok costs
  | (name, resources) :: shared =>
    let cost := (costs.get? name).getD 0 - chargedBefore charged name resources
    if cost < 0 then
      .error (.runtimeError "Shared prompt admission costs exceed the raw budget cost")
    else adjustedCosts charged (costs.set name cost) shared

def failedBudget (budgets : Budgets) (costs : List (String × Int)) : Option (String × Int) :=
  costs.find? fun cost => decide ((budgets.get? cost.1).getD 0 < cost.2)

def admittedBudgets (budgets : Budgets) (costs : List (String × Int)) : Budgets :=
  costs.foldl (fun budgets cost => budgets.set cost.1 ((budgets.get? cost.1).getD 0 - cost.2)) budgets

def chargedAfter (charged : Dict String (List ρ)) (shared : List (String × List (ρ × Int))) :
    Dict String (List ρ) :=
  shared.foldl (fun charged r =>
    charged.set r.1 ((charged.get? r.1).getD [] ++ r.2.map (·.1))) charged

omit [DecidableEq ρ] in
def debugDeferred : SchedM ω Unit := do
  let s ← PyM.get
  if id ∉ s.admissionDeferWarned ∧ s.decoding = [] then debugHook cfg hooks.debugLiveSeqSlots
  else pure ()

variable (l : PrefillLocals ρ)

omit [DecidableEq ρ] in
def failAdmission (id : Nat) : SchedM ω (PrefillLocals ρ) := do
  let action ← hook hooks.promptAdmissionFailureAction
  if action = "defer" then do
    debugDeferred cfg hooks id
    PyM.modify fun s =>
      { s with
        admissionDeferWarned := s.admissionDeferWarned.insert id
        waiting := s.waiting ++ [id] }
    return { l with deferredPrompt := l.deferredPrompt.or (some id) }
  else raise (.runtimeError "Insufficient KV cache slots to admit prompt")

def admitPrompt (id : Nat) (raw costs : Budgets)
    (shared : List (String × List (ρ × Int))) : SchedM ω (PrefillLocals ρ) := do
  PyM.modify fun s =>
    updateSeq id (fun seq => { seq with status := .running })
      { s with admissionDeferWarned := s.admissionDeferWarned.erase id }
  hook (hooks.onPromptAdmitted id raw)
  PyM.modify (updateSeq id Sequence.adoptHit)
  let logical ← hook (hooks.promptLogicalReservationCost id)
  let need := logical - (shared.map fun r => chargedBefore l.chargedShared r.1 r.2).sum
  raiseIf (l.promptLogicalFree < need)
    (.runtimeError "Prompt admission budget mismatch after reservation check")
  return { l with
    admissionBudgets := admittedBudgets l.admissionBudgets costs.entries
    promptLogicalFree := l.promptLogicalFree - need
    chargedShared := chargedAfter l.chargedShared shared }

omit [DecidableEq ρ] in
def acceptCandidate (id : Nat) (chunk : Int) : SchedM ω (PrefillLocals ρ) := do
  PyM.modify (updateSeq id (Sequence.setChunk chunk))
  let cost ← hook (hooks.prefillStepReservationCost id chunk)
  let budgets ← chargeStepAllocations hooks id chunk l.allocationBudgets
  PyM.modify (updateSeq id fun seq => { seq with status := .running })
  return { l with
    scheduled := l.scheduled ++ [id]
    numBatchedSeqs := l.numBatchedSeqs + 1
    numBatchedTokens := l.numBatchedTokens + chunk
    stepFreeCount := max 0 (l.stepFreeCount - cost)
    allocationBudgets := budgets }

inductive CandidateOutcome (ρ : Type)
  | requeued (l : PrefillLocals ρ)
  | joined (l : PrefillLocals ρ)

def considerFresh (id : Nat) (chunk : Int) :
    SchedM ω (CandidateOutcome ρ) := do
  let raw ← hook (hooks.promptAdmissionCosts id)
  let shared ← hook (hooks.promptAdmissionSharedCosts id)
  let costs ← PyM.lift (adjustedCosts l.chargedShared raw shared.entries)
  match failedBudget l.admissionBudgets costs.entries with
  | some _ => do
    let l ← failAdmission cfg hooks l id
    return .requeued l
  | none => do
    let l ← admitPrompt hooks l id raw costs shared.entries
    let l ← acceptCandidate hooks l id chunk
    return .joined l

def considerCandidate (l : PrefillLocals ρ) (id : Nat) :
    SchedM ω (CandidateOutcome ρ) := do
  let c ← candidateChunk cfg hooks mode l id
  let s ← PyM.get
  if c.chunk ≤ 0 then do
    let l ← rejectCandidate hooks mode l id c
    return .requeued l
  else if (s.seqAt id).numPrefilledTokens = 0 then considerFresh cfg hooks l id c.chunk
  else do
    let l ← acceptCandidate hooks l id c.chunk
    return .joined l

end

variable [DecidableEq ρ]

def prefillBucketLoop (bucket : PrefillBucket κ) (pending : Bool) :
    Nat → PrefillLocals ρ → PyM (SchedulerState ω × List Nat) (PrefillLocals ρ)
  | 0, l => pure l
  | budget + 1, l => do
    let t ← PyM.get
    if canContinuePrefillBatch cfg bucket.mode l t.1 then do
      let next ← popNextPrefillSeq cfg hooks bucket pending t.1.waiting
      match next with
      | none => pure l
      | some id => do
        let outcome ← outer (considerCandidate cfg hooks bucket.mode l id)
        match outcome with
        | .requeued l => prefillBucketLoop bucket pending budget l
        | .joined l =>
          if bucket.mode = .rawOffload then pure l
          else prefillBucketLoop bucket pending budget l
    else pure l

def restoreSkipped : PyM (SchedulerState ω × List Nat) Unit :=
  PyM.modify fun t => ({ t.1 with waiting := t.2 ++ t.1.waiting }, [])

def prefillBuckets (pending : Bool) :
    List (PrefillBucket κ) → PrefillLocals ρ → SchedM ω (PrefillLocals ρ)
  | [], l => pure l
  | bucket :: buckets, l =>
    if l.scheduled ≠ [] then pure l
    else do
      let s ← PyM.get
      let l ← withLocals [] (tryFinally
        (prefillBucketLoop cfg hooks bucket pending s.waiting.length l) restoreSkipped)
      prefillBuckets pending buckets l

/-- What the decode phase of `_schedule_impl` keeps beside the state. -/
structure DecodeLocals where
  free : Int
  budgets : Option Budgets
  scheduled : List Nat := []
  blocked : Option Nat := none

section

omit [DecidableEq κ] [DecidableEq ρ]

def blockDecode (l : DecodeLocals) (id : Nat) : SchedM ω (DecodeLocals × Bool) :=
  if 0 < l.free then do
    PyM.modify fun s => { s with decoding := s.decoding ++ [id] }
    return ({ l with blocked := l.blocked.or (some id) }, true)
  else if l.scheduled ≠ [] then do
    PyM.modify fun s => { s with decoding := s.decoding ++ [id] }
    return ({ l with blocked := l.blocked.or (some id) }, false)
  else do
    PyM.modify fun s => { s with decoding := id :: s.decoding }
    return ({ l with blocked := some id }, false)

def considerDecode (l : DecodeLocals) (id : Nat) : SchedM ω (DecodeLocals × Bool) := do
  let s ← PyM.get
  if outputPending (s.seqAt id) then do
    PyM.modify fun s => { s with decoding := s.decoding ++ [id] }
    return (l, true)
  else do
    let own ← hook (hooks.decodeStepFreeSlotsFor id)
    let cost ← hook (hooks.decodeStepReservationCost id)
    let blocked ← decodeBlocked hooks id (min l.free own) cost l.budgets
    if blocked then blockDecode l id
    else do
      let budgets ← chargeStepAllocations hooks id 1 l.budgets
      return ({ l with
        free := l.free - cost
        budgets := budgets
        scheduled := l.scheduled ++ [id] }, true)

def decodeLoop : Nat → DecodeLocals → SchedM ω DecodeLocals
  | 0, l => pure l
  | budget + 1, l => do
    let s ← PyM.get
    match s.decoding with
    | [] => pure l
    | id :: rest =>
      if l.scheduled.length < cfg.maxDecodingSeqs then do
        PyM.modify fun s => { s with decoding := rest }
        let (l, more) ← considerDecode hooks l id
        if more then decodeLoop budget l else pure l
      else pure l

def requeueDecodes (scheduled : List Nat) (blocked : Option Nat) (s : SchedulerState ω) :
    SchedulerState ω :=
  let decoding := scheduled ++ s.decoding
  { s with
    decoding :=
      match blocked with
      | none => decoding
      | some id => id :: decoding.erase id }

end

structure ReclaimFlags where
  prefill : Bool := true
  decode : Bool := true

def ReclaimFlags.number (flags : ReclaimFlags) : Nat := flags.prefill.toNat + flags.decode.toNat

inductive PassOutcome (flags : ReclaimFlags)
  | done (result : ScheduleResult)
  | again (next : ReclaimFlags) (h : next.number < flags.number)

section

omit [DecidableEq κ] [DecidableEq ρ]

/-- The reservation of the decode windows at the start of a pass. -/
def reserveWindows (flags : ReclaimFlags) : SchedM ω (Option Nat × Bool) := do
  let s ← PyM.get
  let failure ← hook (hooks.reserveDecodeWindows s.decoding s.waiting)
  match failure, flags.decode, hooks.decodeCapacityReclaimer with
  | some id, true, some reclaimer => do
    let failure ← reclaimDecodeCapacity reclaimer id
    return (failure, true)
  | _, _, _ => return (failure, false)

/-- `_phase_reason` before the batch is chosen. -/
def phaseReasonOf (overdue : Bool) (phase : SchedulerPhase) : PhaseReason :=
  if overdue then .prefillWaitTimeout
  else match phase with
    | .prefill => .prefillContinue
    | .decode => .decodeBelowThreshold

def findOverdue : SchedM ω Bool :=
  if cfg.favorMinDecodingSeqs = 0 then do
    PyM.modify fun s => { s with phaseReason := .prefillPriority }
    return false
  else do
    let s ← PyM.get
    let overdue := s.prefillWaitSince.values.any fun since => decide (60 ≤ s.now hooks - since)
    PyM.modify fun s => { s with phaseReason := phaseReasonOf overdue s.phase }
    return overdue

def affinityBatch (overdue failed : Bool) : SchedM ω (Option (List Nat)) := do
  let s ← PyM.get
  if cfg.favorMinDecodingSeqs = 0 ∨ s.phase = .prefill ∨ overdue = true ∨ failed = true then
    return none
  else do
    let batch ← eligibleDecodeBatch cfg hooks
    if batch ≠ [] ∧ (s.waiting = [] ∨ cfg.favorMinDecodingSeqs ≤ batch.length) then do
      PyM.modify fun s =>
        { s with phaseReason := if s.waiting = [] then .noPrefill else .decodeAffinity }
      return some batch
    else return none

def prefillCounters (physicalFree : Int) : SchedM ω (PrefillLocals ρ) := do
  let s ← PyM.get
  if s.waiting = [] then return { stepFreeCount := physicalFree }
  else do
    let reserved ← reservedPrefillTokens cfg hooks
    let admission ← hook hooks.promptAdmissionFreeSlots
    let stepFree ← hook hooks.prefillStepFreeSlots
    let budgets ← hook (hooks.promptAdmissionBudgets s.waiting cfg.enginePrefillChunkSize)
    let margin ← hook hooks.prefillBatchedTokensMargin
    return {
      stepFreeCount := stepFree
      promptLogicalFree := max 0 (admission - reserved)
      admissionBudgets := budgets
      marginBatchedTokens := margin }

def prefillAllocationBudgets : SchedM ω (Option Budgets) := do
  let s ← PyM.get
  if s.waiting = [] then return none else hook (hooks.stepAllocationBudgets true)

def sortOverdue (overdue : Bool) : SchedM ω Unit := do
  let s ← PyM.get
  if overdue then do
    raiseIf (∃ id ∈ s.waiting, s.prefillWaitSince.contains id = false) (.keyError "seq_id")
    PyM.modify fun s =>
      { s with
        waiting := s.waiting.insertionSort fun a b =>
          (s.prefillWaitSince.get? a).getD 0 ≤ (s.prefillWaitSince.get? b).getD 0 }
  else pure ()

end

omit [DecidableEq ρ] in
def bucketsToTry : SchedM ω (List (PrefillBucket κ)) := do
  let s ← PyM.get
  if s.waiting = [] ∨ (s.replayPending = true ∧ s.decoding ≠ []) then return []
  else prefillModeOrder cfg hooks

def prefillPhase (overdue : Bool) : SchedM ω (PrefillLocals ρ × Int) := do
  let physicalFree ← hook hooks.numFreeSlots
  let counters ← prefillCounters cfg hooks physicalFree
  let decodeFree ← hook hooks.decodeStepFreeSlots
  let budgets ← prefillAllocationBudgets hooks
  sortOverdue overdue
  let buckets ← bucketsToTry cfg hooks
  let s ← PyM.get
  let l ← prefillBuckets cfg hooks s.replayPending buckets
    { counters with allocationBudgets := budgets }
  return (l, max 0 decodeFree)

section

omit [DecidableEq κ] [DecidableEq ρ]

def preemptCrowded (id : Nat) : SchedM ω ScheduleResult := do
  removeDecoding id
  let _ ← hook hooks.numFreeSlots
  let _ ← reservedPrefillTokens cfg hooks
  preemptDecodeVictim cfg hooks id [] []

def preemptFailed (id : Nat) : SchedM ω ScheduleResult := do
  removeDecoding id
  preemptDecodeVictim cfg hooks id [] []

def raiseStuck (l : PrefillLocals ρ) : SchedM ω ScheduleResult := do
  let s ← PyM.get
  raiseIf (l.blockedStep.isSome ∧ s.decoding = [])
    (.runtimeError "Prefill candidate requires an atomic prefill step but cannot fit")
  raiseIf (l.blockedFinalWindow.isSome ∧ s.decoding = [])
    (.runtimeError "Final prefill score window cannot fit in the effective step budget")
  raiseIf (l.blockedCapacity.isSome ∧ s.decoding = [])
    (.runtimeError "No prefill candidate can use the remaining cache capacity")
  if l.deferredPrompt.isSome ∧ s.decoding = [] then do
    debugHook cfg hooks.debugLiveSeqSlots
    raise (.runtimeError "All prompt admissions were deferred and no runnable work remains")
  else return { seqs := [], isPrefill := false, preempted := [] }

variable (flags : ReclaimFlags)

def reclaimPrefill (l : PrefillLocals ρ) : SchedM ω Bool := do
  let s ← PyM.get
  match hooks.prefillCapacityReclaimer, s.waiting with
  | some reclaimer, head :: _ =>
    if s.decoding = [] ∧ flags.prefill = true ∧
        (l.deferredPrompt.isSome ∨ l.stepFreeCount ≤ 0 ∨ l.blockedCapacity.isSome) then do
      raiseIf (s.asyncInflight ≠ 0)
        (asyncDrainRequired "Prefill capacity reclaim requires completed in-flight KV users")
      hook (reclaimer (((l.deferredPrompt).or l.blockedCapacity).getD head) s.waiting)
    else return false
  | _, _ => return false

def reclaimBlocked (decode : Bool) (id : Nat) : SchedM ω Bool :=
  match decode, hooks.decodeCapacityReclaimer with
  | true, some reclaimer => do
    let failure ← reclaimDecodeCapacity reclaimer id
    return failure.isNone
  | _, _ => return false

def preemptBlocked (id : Nat) : SchedM ω ScheduleResult := do
  PyM.modify fun s => { s with decoding := s.decoding.erase id }
  preemptDecodeVictim cfg hooks id [] []

omit [DecidableEq κ] [DecidableEq ρ] in
theorem ReclaimFlags.dropDecode_lt {flags : ReclaimFlags} (h : flags.decode = true) :
    ReclaimFlags.number { flags with decode := false } < flags.number := by
  unfold ReclaimFlags.number
  rw [h]
  exact Nat.lt_succ_self _

theorem ReclaimFlags.dropPrefill_lt {flags : ReclaimFlags} {decode : Bool}
    (h : flags.prefill = true) (hdecode : decode = true → flags.decode = true) :
    ReclaimFlags.number { prefill := false, decode := decode } < flags.number := by
  unfold ReclaimFlags.number
  rw [h]
  cases decode with
  | false => exact Nat.lt_of_lt_of_le (Nat.zero_lt_one) (Nat.le_add_right _ _)
  | true =>
    rw [hdecode rfl]
    decide

def withoutBatch (decode : Bool) (hdecode : decode = true → flags.decode = true)
    (l : PrefillLocals ρ) : Option Nat → SchedM ω (PassOutcome flags)
  | some id => do
    let freed ← reclaimBlocked hooks decode id
    if h : decode = true ∧ freed = true then
      return .again { flags with decode := false } (ReclaimFlags.dropDecode_lt (hdecode h.1))
    else do
      let result ← preemptBlocked cfg hooks id
      return .done result
  | none => do
    let freed ← reclaimPrefill hooks flags l
    if h : flags.prefill = true ∧ freed = true then
      return .again { prefill := false, decode := decode } (ReclaimFlags.dropPrefill_lt h.1 hdecode)
    else do
      let result ← raiseStuck cfg hooks l
      return .done result

def decodePhase (decode : Bool) (hdecode : decode = true → flags.decode = true)
    (l : PrefillLocals ρ) (free : Int) : SchedM ω (PassOutcome flags) := do
  PyM.modify fun s =>
    { s with phaseReason := if s.waiting = [] then .noPrefill else .prefillUnavailable }
  let budgets ← hook (hooks.stepAllocationBudgets false)
  let s ← PyM.get
  let d ← decodeLoop cfg hooks s.decoding.length { free := free, budgets := budgets }
  if d.scheduled = [] then withoutBatch cfg hooks flags decode hdecode l d.blocked
  else do
    PyM.modify (requeueDecodes d.scheduled d.blocked)
    return .done { seqs := d.scheduled, isPrefill := false, preempted := [] }

end

def passBody (flags : ReclaimFlags) (decode : Bool) (hdecode : decode = true → flags.decode = true)
    (failure : Option Nat) : SchedM ω (PassOutcome flags) := do
  let overdue ← findOverdue cfg hooks
  let batch ← affinityBatch cfg hooks overdue failure.isSome
  match batch with
  | some batch => return .done { seqs := batch, isPrefill := false, preempted := [] }
  | none => do
    let (l, free) ← prefillPhase cfg hooks overdue
    match l.scheduled, failure with
    | [], none => decodePhase cfg hooks flags decode hdecode l free
    | [], some id => do
      let result ← preemptFailed cfg hooks id
      return .done result
    | scheduled, _ => return .done { seqs := scheduled, isPrefill := true, preempted := [] }

/-- A pass of `_schedule_impl`. -/
def schedulePass (flags : ReclaimFlags) : SchedM ω (PassOutcome flags) := do
  let (failure, reclaimed) ← reserveWindows hooks flags
  let s ← PyM.get
  match failure, decide (1 < s.decoding.length) with
  | some id, true => do
    let result ← preemptCrowded cfg hooks id
    return .done result
  | _, _ =>
    passBody cfg hooks flags (flags.decode && !reclaimed) (fun h => Bool.and_elim_left h) failure

def scheduleImpl (flags : ReclaimFlags) : SchedM ω ScheduleResult := do
  let outcome ← schedulePass cfg hooks flags
  match outcome with
  | .done result => return result
  | .again next _ => scheduleImpl next
termination_by flags.number

section

omit [DecidableEq κ] [DecidableEq ρ]

def restoreQueues (waitingBefore decodingBefore : List Nat) (s : SchedulerState ω) :
    SchedulerState ω :=
  let waiting := s.waiting ++ waitingBefore.filter fun id => decide (id ∉ s.waiting ++ s.decoding)
  { s with
    waiting := waiting
    decoding := s.decoding ++ decodingBefore.filter fun id =>
      decide (id ∉ s.waiting ++ s.decoding) && decide (id ∉ waiting) }

def recordPhase (now : Int) (result : ScheduleResult) (s : SchedulerState ω) : SchedulerState ω :=
  if result.seqs = [] then s
  else
    let phase : SchedulerPhase := if result.isPrefill then .prefill else .decode
    { s with
      prefillWaitSince :=
        if result.isPrefill then result.seqs.foldl (fun d id => d.erase id) s.prefillWaitSince
        else s.prefillWaitSince
      phaseStartedAt := if phase = s.phase then s.phaseStartedAt else now
      phase := phase }

end

def schedule : SchedM ω ScheduleResult := do
  let s ← PyM.get
  let now := s.now hooks
  PyM.modify fun s => s.waiting.foldl (fun s id => noteWaiting now id s) s
  let result ← tryExcept (do
    hook hooks.enterCapacitySnapshot
    tryFinally (scheduleImpl cfg hooks {}) (hook hooks.exitCapacitySnapshot)) fun e => do
      PyM.modify (restoreQueues s.waiting s.decoding)
      raise e
  PyM.modify (recordPhase now result)
  return result

section

omit [DecidableEq κ] [DecidableEq ρ]

def add (id : Nat) : SchedM ω Unit := do
  PyM.modify fun s =>
    if s.waiting = [] ∧ s.decoding = [] then
      { s with phase := .prefill, phaseStartedAt := s.now hooks }
    else s
  PyM.modify fun s => { noteWaiting (s.now hooks) id s with waiting := s.waiting ++ [id] }

inductive QueueName
  | waiting
  | decoding
deriving DecidableEq, Repr

def queue (s : SchedulerState ω) : QueueName → List Nat
  | .waiting => s.waiting
  | .decoding => s.decoding

variable (name : QueueName)

def setQueue (ids : List Nat) (s : SchedulerState ω) : SchedulerState ω :=
  match name with
  | .waiting => { s with waiting := ids }
  | .decoding => { s with decoding := ids }

def mayOwnSlots (seq : Sequence) : Bool :=
  decide (seq.status = .running) || decide (0 < seq.numPrefilledTokens) || decide (name = .decoding)

/-- The loop of `abort_many` over a queue. -/
def abortLoop (name : QueueName) (requested : List Nat) :
    List Nat → List Nat → Dict Nat Bool → SchedM ω (List Nat × Dict Nat Bool)
  | [], retained, removed => pure (retained, removed)
  | id :: rest, retained, removed => do
    PyM.modify (setQueue name rest)
    if id ∈ requested then do
      let s ← PyM.get
      PyM.modify fun s =>
        updateSeq id (fun seq => { seq with status := .finished })
          { s with admissionDeferWarned := s.admissionDeferWarned.erase id }
      hook (hooks.resetPrefillExecutionState id)
      abortLoop name requested rest retained
        (removed.set id ((removed.get? id).getD false || mayOwnSlots name (s.seqAt id)))
    else abortLoop name requested rest (retained ++ [id]) removed

/-- `abort_many` on a queue. -/
def abortQueue (requested : List Nat) (removed : Dict Nat Bool) :
    SchedM ω (Dict Nat Bool) := do
  let s ← PyM.get
  let (retained, removed) ← abortLoop hooks name requested (s.queue name) [] removed
  PyM.modify fun s => setQueue name (s.queue name ++ retained) s
  return removed

def abortMany (requested : List Nat) : SchedM ω (Dict Nat Bool) :=
  if requested = [] then pure .empty
  else do
    PyM.modify fun s =>
      { s with prefillWaitSince := requested.foldl (fun d id => d.erase id) s.prefillWaitSince }
    let removed ← abortQueue hooks .waiting requested .empty
    abortQueue hooks .decoding requested removed

variable (retain : Bool)

def publishToken (id : Nat) (token : Int) : SchedM ω Unit := do
  PyM.modify (updateSeq id (Sequence.appendToken token))
  let s ← PyM.get
  if (s.seqAt id).stopsAt cfg.eosTokenIds token then
    PyM.modify fun s =>
      let s := updateSeq id (fun seq => { seq with status := .finished }) s
      if retain then s else { s with decoding := s.decoding.erase id }
  else pure ()

def startDecoding (id : Nat) (token : Int) : SchedM ω Unit := do
  hook (hooks.completePrefillExecution id)
  PyM.modify fun s =>
    let s := updateSeq id (fun seq => { seq with status := .running }) s
    { s with decoding := s.decoding ++ [id] }
  let s ← PyM.get
  if (s.seqAt id).isRecomputeReplay then
    PyM.modify fun s =>
      if (s.seqAt id).replayDecodeTokenCount = 0 then updateSeq id Sequence.finishRecomputeReplay s
      else s
  else publishToken cfg retain id token

/-- `postprocess` of a sequence of a prefill batch. -/
def postprocessPrefill (id : Nat) (token : Int) : SchedM ω Unit := do
  PyM.modify (updateSeq id Sequence.advancePrefill)
  let s ← PyM.get
  if (s.seqAt id).numPrefilledTokens < (s.seqAt id).numPromptTokens then
    PyM.modify fun s =>
      let s := updateSeq id (fun seq => { seq with status := .waiting }) s
      { noteWaiting (s.now hooks) id s with waiting := id :: s.waiting }
  else startDecoding cfg hooks retain id token

/-- `postprocess` of a sequence of a decode batch. -/
def postprocessDecode (id : Nat) (token : Int) : SchedM ω Unit := do
  let s ← PyM.get
  if (s.seqAt id).isRecomputeDecode then PyM.modify (updateSeq id Sequence.advanceRecomputeReplay)
  else publishToken cfg retain id token

def postprocess (seqs : List Nat) (tokenIds : List Int) (isPrefill retain : Bool) : SchedM ω Unit :=
  forEach (fun p => if isPrefill then postprocessPrefill cfg hooks retain p.1 p.2
    else postprocessDecode cfg retain p.1 p.2) (seqs.zip tokenIds)

end

end SchedulerState

end SparseEngine
