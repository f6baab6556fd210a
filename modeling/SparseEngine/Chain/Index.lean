import SparseEngine.Lib.Dict
import SparseEngine.Lib.Py

/-! `ChainCacheIndex`: the lifecycle of chains. -/

namespace SparseEngine

open PyM

inductive ChainState
  | active
  | idle
deriving DecidableEq, Repr

/-- The subclasses of `ChainCacheError`. -/
inductive ChainErrorClass
  | notFound
  | busy
  | prefixMismatch
  | fingerprintMismatch
  | gone
  | capacity
  | ownerMismatch
deriving DecidableEq, Repr

def ChainErrorClass.number : ChainErrorClass → Nat
  | .notFound => 0
  | .busy => 1
  | .prefixMismatch => 2
  | .fingerprintMismatch => 3
  | .gone => 4
  | .capacity => 5
  | .ownerMismatch => 6

def ChainErrorClass.error (c : ChainErrorClass) (message : String) : PyError :=
  .custom c.number message

/-- `ChainRecord`. A digest that was never written is `none`. -/
structure ChainRecord (ι φ δ : Type) where
  chainId : ι
  seqId : Nat
  fingerprint : φ
  state : ChainState
  processedTokenCount : Nat := 0
  processedTokenDigest : Option δ := none
  tokenIds : List Int := []
  lastInputTokenCount : Nat := 0
  lastAccess : Nat := 0
  physicalSlotsByLayer : List Int := []
  capacitySlots : Option (List Int) := none
  residentRows : Int := 1
  reservedSlotsByLayer : List Int := []
  reservedRows : Int := 0
deriving DecidableEq, Repr

def ChainRecord.allocatedCapacity {ι φ δ : Type} (r : ChainRecord ι φ δ) : List Int :=
  r.capacitySlots.getD r.physicalSlotsByLayer

/-- What `plan_admission` found. -/
inductive AdmissionStatus
  | created
  | resumed
deriving DecidableEq, Repr

structure ChainAdmissionPlan (ι : Type) where
  chainId : ι
  seqId : Nat
  status : AdmissionStatus
  reusedTokens : Nat
  inputTokenCount : Nat := 0
  victimChainIds : List ι := []
  reservedSlotsByLayer : List Int := []
  reservedRows : Int := 0
  demoteChainIds : List ι := []
  decodeReservedSlotsByLayer : List Int := []
deriving DecidableEq, Repr

structure ChainRoutingSnapshot (ι : Type) where
  enabled : Bool
  activeChainIds : Finset ι
  idleChainIds : Finset ι
  tombstoneChainIds : Finset ι

structure ChainMatch where
  present : Bool
  state : Option ChainState
  tombstone : Bool
deriving DecidableEq, Repr

/-- What an index is created with. -/
structure ChainIndexConfig (δ : Type) where
  maxTombstones : Nat
  maxTokenHistoryTokens : Option Nat
  digest : List Int → δ
  isDigest : δ → Bool
  maxTombstones_pos : 0 < maxTombstones
  isDigest_digest : ∀ tokens, isDigest (digest tokens) = true

/-- `ChainCacheIndex`. -/
structure ChainCacheIndex (ι φ δ : Type) where
  records : Dict ι (ChainRecord ι φ δ) := .empty
  activeRecords : Dict ι Unit := .empty
  routingSnapshotCache : Option (ChainRoutingSnapshot ι) := none
  seqIdToChainId : Dict Nat ι := .empty
  tombstones : Dict ι Nat := .empty
  clock : Nat := 0
  tokenHistoryTokens : Int := 0

namespace ChainCacheIndex

variable {ι φ δ : Type}

abbrev ChainM (ι φ δ : Type) := PyM (ChainCacheIndex ι φ δ)

/-- Whether a token fits `array("q")`. -/
def fitsInt64 (token : Int) : Bool := decide (-2 ^ 63 ≤ token ∧ token < 2 ^ 63)

/-- Whether a token fits `array("I")`. -/
def fitsUInt32 (token : Int) : Bool := decide (0 ≤ token ∧ token < 2 ^ 32)

variable (cfg : ChainIndexConfig δ)

/-- `stable_token_digest` of the first `count` tokens. -/
def stableTokenDigest (tokenIds : List Int) (count : Nat) :
    Except PyError δ :=
  if (tokenIds.take count).all fitsInt64 then
    if tokenIds.length < count then
      .error (ChainErrorClass.prefixMismatch.error
        "Input is shorter than the chain's processed token boundary")
    else .ok (cfg.digest (tokenIds.take count))
  else .error (.overflowError "int too large to convert")

def checkTokenHistoryCapacity (r : ChainRecord ι φ δ)
    (tokenCount : Nat) : ChainM ι φ δ Unit := do
  let s ← PyM.get
  let nextTotal := s.tokenHistoryTokens - r.tokenIds.length + tokenCount
  raiseIf (∃ n ∈ cfg.maxTokenHistoryTokens, (n : Int) < nextTotal)
    (ChainErrorClass.capacity.error
      "Chain logical token history exceeds its configured resident capacity")

def prepareTokenHistory (r : ChainRecord ι φ δ) (tokenIds : List Int)
    (processedTokenCount : Nat) : ChainM ι φ δ (List Int) := do
  raiseIf (¬ tokenIds.all fitsUInt32)
    (ChainErrorClass.ownerMismatch.error "Chain token IDs must fit unsigned 32-bit storage.")
  raiseIf (tokenIds.length < processedTokenCount)
    (ChainErrorClass.ownerMismatch.error
      "Finished token sequence is shorter than the processed boundary")
  checkTokenHistoryCapacity cfg r tokenIds.length
  return tokenIds

variable [LinearOrder ι] [DecidableEq φ] [DecidableEq δ]

def setRecord (r : ChainRecord ι φ δ) (s : ChainCacheIndex ι φ δ) : ChainCacheIndex ι φ δ :=
  { s with records := s.records.set r.chainId r }

def tick : ChainM ι φ δ Nat := do
  PyM.modify fun s => { s with clock := s.clock + 1 }
  return (← PyM.get).clock

def setRecordState (r : ChainRecord ι φ δ) (state : ChainState) : ChainM ι φ δ Unit :=
  PyM.modify fun s =>
    { setRecord { r with state := state } s with
      routingSnapshotCache := none
      activeRecords :=
        match state with
        | .active => s.activeRecords.set r.chainId ()
        | .idle => s.activeRecords.erase r.chainId }

/-- Drop the oldest tombstones until `n` are left. -/
def dropOldest (n : Nat) (tombstones : Dict ι Nat) : Dict ι Nat :=
  ⟨tombstones.entries.drop (tombstones.size - n),
    ((List.drop_sublist _ _).map _).nodup tombstones.nodup⟩

def addTombstone (chainId : ι) : ChainM ι φ δ Unit := do
  PyM.modify fun s =>
    { s with routingSnapshotCache := none, tombstones := s.tombstones.erase chainId }
  let now ← tick
  PyM.modify fun s =>
    { s with tombstones := dropOldest cfg.maxTombstones (s.tombstones.set chainId now) }

def lookup (chainId : ι) : ChainM ι φ δ (ChainRecord ι φ δ) := do
  let s ← PyM.get
  match s.records.get? chainId with
  | some r => pure r
  | none =>
    if s.tombstones.contains chainId then
      raise (ChainErrorClass.gone.error "Chain was evicted or invalidated.")
    else raise (ChainErrorClass.notFound.error "Unknown chain_id.")

def storeTokenHistory (r : ChainRecord ι φ δ) (tokens : List Int) :
    ChainM ι φ δ (ChainRecord ι φ δ) := do
  checkTokenHistoryCapacity cfg r tokens.length
  let stored := { r with tokenIds := tokens }
  PyM.modify fun s =>
    { setRecord stored s with
      tokenHistoryTokens := s.tokenHistoryTokens - r.tokenIds.length + tokens.length }
  return stored

/-- What `invalidate` and `evict` do to a record that was found: its history is dropped, it leaves
the tables and a tombstone stays. -/
def removeRecord (chainId : ι) (r : ChainRecord ι φ δ) :
    ChainM ι φ δ Unit := do
  PyM.modify fun s =>
    { s with
      tokenHistoryTokens := s.tokenHistoryTokens - r.tokenIds.length
      records := s.records.erase chainId
      activeRecords := s.activeRecords.erase chainId
      seqIdToChainId := s.seqIdToChainId.erase r.seqId }
  addTombstone cfg chainId

def invalidate (chainId : ι) : ChainM ι φ δ (ChainRecord ι φ δ) := do
  let r ← lookup chainId
  removeRecord cfg chainId r
  return r

def evict (cfg : ChainIndexConfig δ) (chainId : ι) : ChainM ι φ δ (ChainRecord ι φ δ) := do
  let r ← lookup chainId
  raiseIf (r.state = .active) (ChainErrorClass.busy.error "Cannot evict ACTIVE chain.")
  removeRecord cfg chainId r
  return r

/-- The order of `idle_resident_lru`. -/
def lruLe (r r' : ChainRecord ι φ δ) : Prop :=
  r.lastAccess < r'.lastAccess ∨ r.lastAccess = r'.lastAccess ∧ r.chainId ≤ r'.chainId

instance : DecidableRel (lruLe (ι := ι) (φ := φ) (δ := δ)) := fun _ _ =>
  inferInstanceAs (Decidable (_ ∨ _ ∧ _))

variable (s : ChainCacheIndex ι φ δ)

def idleResidentLru : List (ChainRecord ι φ δ) :=
  (s.records.values.filter fun r => decide (r.state = .idle ∧ 0 < r.residentRows)).insertionSort lruLe

def reduceDeficits (deficits capacity : List Int) : List Int :=
  (List.range deficits.length).map fun i => max 0 (deficits.getD i 0 - capacity.getD i 0)

/-- The victims loop of `_plan_admission`. -/
def takeVictims : List (ChainRecord ι φ δ) → Int → List Int → List ι × Int × List Int
  | [], rows, deficits => ([], rows, deficits)
  | r :: candidates, rows, deficits =>
    if rows ≤ 0 ∧ deficits.all (· = 0) then ([], rows, deficits)
    else
      let (victims, rows, deficits) := takeVictims candidates (max 0 (rows - r.residentRows))
        (reduceDeficits deficits r.allocatedCapacity)
      (r.chainId :: victims, rows, deficits)

inductive PrefixInput (δ : Type)
  | tokens (tokenIds : List Int)
  | digest (inputTokenCount : Nat) (prefixDigest : δ)

def PrefixInput.inputTokenCount : PrefixInput δ → Nat
  | .tokens tokenIds => tokenIds.length
  | .digest count _ => count

/-- The digest of the first `count` tokens of a request. -/
def PrefixInput.prefixDigest (cfg : ChainIndexConfig δ) (count : Nat) :
    PrefixInput δ → Except PyError δ
  | .tokens tokenIds => stableTokenDigest cfg tokenIds count
  | .digest inputTokenCount prefixDigest =>
    if inputTokenCount < count then
      .error (ChainErrorClass.prefixMismatch.error
        "Input is shorter than the chain's processed token boundary")
    else .ok prefixDigest

/-- The arguments of `_plan_admission`. -/
structure AdmissionRequest (ι φ δ : Type) where
  chainId : ι
  seqId : Nat
  input : PrefixInput δ
  fingerprint : φ
  requiredSlotsByLayer : List Int := []
  rowDeficit : Int := 0
  reservedSlotsByLayer : List Int := []
  reservedRows : Int := 0

/-- The checks of `_plan_admission`. -/
def admissionStatus (req : AdmissionRequest ι φ δ) :
    ChainM ι φ δ (AdmissionStatus × Nat) := do
  let s ← PyM.get
  match s.records.get? req.chainId with
  | none =>
    if s.tombstones.contains req.chainId then do
      let _ ← lookup req.chainId
      return (.created, 0)
    else return (.created, 0)
  | some r => do
    raiseIf (r.state = .active) (ChainErrorClass.busy.error "Chain already has an active writer.")
    raiseIf (r.fingerprint ≠ req.fingerprint)
      (ChainErrorClass.fingerprintMismatch.error
        "Chain was created with a different method/config fingerprint.")
    raiseIf (r.seqId ≠ req.seqId) (ChainErrorClass.ownerMismatch.error "Chain owner mismatch")
    let digest ← PyM.lift (req.input.prefixDigest cfg r.processedTokenCount)
    raiseIf (some digest ≠ r.processedTokenDigest)
      (ChainErrorClass.prefixMismatch.error "Input prefix does not match chain")
    return (.resumed, r.processedTokenCount)

def planAdmission (req : AdmissionRequest ι φ δ) :
    ChainM ι φ δ (ChainAdmissionPlan ι) := do
  let (status, reusedTokens) ← admissionStatus cfg req
  let s ← PyM.get
  let deficits := req.requiredSlotsByLayer.map (max 0)
  let rows := max 0 req.rowDeficit
  let candidates :=
    if 0 < rows ∨ ¬ deficits.all (· = 0) then
      (idleResidentLru s).filter fun r => decide (r.chainId ≠ req.chainId)
    else []
  let (victims, rows, deficits) := takeVictims candidates rows deficits
  raiseIf (0 < rows ∨ ¬ deficits.all (· = 0))
    (ChainErrorClass.capacity.error
      "No capacity is available for the chain request after evicting all IDLE chains")
  return {
    chainId := req.chainId
    seqId := req.seqId
    status := status
    reusedTokens := reusedTokens
    inputTokenCount := req.input.inputTokenCount
    victimChainIds := victims
    reservedSlotsByLayer := req.reservedSlotsByLayer.map (max 0)
    reservedRows := max 0 req.reservedRows }

variable (plan : ChainAdmissionPlan ι)

/-- `apply_admission` for a new chain. -/
def createRecord (fingerprint : φ) :
    ChainM ι φ δ (ChainRecord ι φ δ) := do
  let s ← PyM.get
  raiseIf (s.records.contains plan.chainId)
    (ChainErrorClass.ownerMismatch.error "Chain appeared between plan and admission.")
  raiseIf (s.seqIdToChainId.contains plan.seqId)
    (ChainErrorClass.ownerMismatch.error "resident_seq_id already owns chain")
  let now ← tick
  let r : ChainRecord ι φ δ :=
    { chainId := plan.chainId
      seqId := plan.seqId
      fingerprint := fingerprint
      state := .active
      lastInputTokenCount := plan.inputTokenCount
      lastAccess := now
      reservedSlotsByLayer := plan.reservedSlotsByLayer
      reservedRows := plan.reservedRows }
  setRecordState r .active
  PyM.modify fun s => { s with seqIdToChainId := s.seqIdToChainId.set plan.seqId plan.chainId }
  return r

/-- `apply_admission` for an IDLE chain. -/
def resumeRecord : ChainM ι φ δ (ChainRecord ι φ δ) := do
  let r ← lookup plan.chainId
  raiseIf (r.state ≠ .idle) (ChainErrorClass.busy.error "Chain is not IDLE during admission.")
  let now ← tick
  let resumed :=
    { r with
      state := .active
      lastInputTokenCount := plan.inputTokenCount
      lastAccess := now
      reservedSlotsByLayer := plan.reservedSlotsByLayer
      reservedRows := plan.reservedRows }
  setRecordState resumed .active
  return resumed

def applyAdmission (fingerprint : φ) :
    ChainM ι φ δ (ChainRecord ι φ δ) := do
  forEach (fun victim => do
    let _ ← evict cfg victim) plan.victimChainIds
  match plan.status with
  | .created => createRecord plan fingerprint
  | .resumed => resumeRecord plan

structure FinishedTurn (δ : Type) where
  processedTokenDigest : δ
  processedTokenCount : Nat
  physicalSlotsByLayer : List Int
  residentRows : Int := 1
  capacitySlots : Option (List Int) := none

def finishDigest (chainId : ι) (turn : FinishedTurn δ) :
    ChainM ι φ δ (ChainRecord ι φ δ) := do
  let r ← lookup chainId
  raiseIf (r.state ≠ .active) (ChainErrorClass.ownerMismatch.error "Cannot finish non-ACTIVE chain.")
  raiseIf (turn.processedTokenCount < r.processedTokenCount)
    (ChainErrorClass.ownerMismatch.error "Chain processed boundary moved backwards")
  raiseIf (cfg.isDigest turn.processedTokenDigest = false)
    (.valueError "processed_token_digest must be a SHA-256 digest")
  let finished :=
    { r with
      state := .idle
      processedTokenDigest := some turn.processedTokenDigest
      processedTokenCount := turn.processedTokenCount
      physicalSlotsByLayer := turn.physicalSlotsByLayer
      capacitySlots := turn.capacitySlots
      residentRows := turn.residentRows
      reservedSlotsByLayer := []
      reservedRows := 0 }
  setRecordState finished .idle
  let now ← tick
  let touched := { finished with lastAccess := now }
  PyM.modify (setRecord touched)
  return touched

def finish (chainId : ι) (tokenIds : List Int) (processedTokenCount : Nat)
    (physicalSlotsByLayer : List Int) (residentRows : Int) (capacitySlots : Option (List Int)) :
    ChainM ι φ δ (ChainRecord ι φ δ) := do
  let existing ← lookup chainId
  let tokens ← prepareTokenHistory cfg existing tokenIds processedTokenCount
  let digest ← PyM.lift (stableTokenDigest cfg tokenIds processedTokenCount)
  let r ← finishDigest cfg chainId
    { processedTokenDigest := digest
      processedTokenCount := processedTokenCount
      physicalSlotsByLayer := physicalSlotsByLayer
      residentRows := residentRows
      capacitySlots := capacitySlots }
  storeTokenHistory cfg r tokens

structure PreparedChainTokens (ι δ : Type) where
  chainId : ι
  seqId : Nat
  processedTokenCount : Nat
  processedTokenDigest : δ
  tokens : List Int

def prepareProcessedTokens (chainId : ι) (seqId : Nat)
    (tokenIds : List Int) (processedTokenCount : Nat) :
    ChainM ι φ δ (PreparedChainTokens ι δ) := do
  let r ← lookup chainId
  raiseIf (r.seqId ≠ seqId) (ChainErrorClass.ownerMismatch.error "Chain owner mismatch")
  let tokens ← prepareTokenHistory cfg r tokenIds processedTokenCount
  let digest ← PyM.lift (stableTokenDigest cfg tokens processedTokenCount)
  return {
    chainId := chainId
    seqId := seqId
    processedTokenCount := processedTokenCount
    processedTokenDigest := digest
    tokens := tokens }

def rememberPreparedTokens (prepared : PreparedChainTokens ι δ) :
    ChainM ι φ δ (ChainRecord ι φ δ) := do
  let r ← lookup prepared.chainId
  raiseIf (r.seqId ≠ prepared.seqId ∨ r.state ≠ .idle)
    (ChainErrorClass.ownerMismatch.error
      "Prepared history requires its original owner in IDLE state.")
  raiseIf (prepared.processedTokenCount ≠ r.processedTokenCount ∨
      some prepared.processedTokenDigest ≠ r.processedTokenDigest)
    (ChainErrorClass.ownerMismatch.error
      "Finished logical tokens do not match the recorded chain boundary.")
  storeTokenHistory cfg r prepared.tokens

def historyLength (chainId : ι) : Nat :=
  (s.records.get? chainId).elim 0 (·.tokenIds.length)

def validateTokenHistoryAdmission
    (maxTokenCounts : Dict ι Nat) : ChainM ι φ δ Unit :=
  match cfg.maxTokenHistoryTokens with
  | none => pure ()
  | some capacity => do
    let s ← PyM.get
    raiseIf (∃ victim ∈ plan.victimChainIds, s.records.contains victim = false)
      (.keyError "chain_id")
    let kept := s.tokenHistoryTokens - (plan.victimChainIds.map fun v => (historyLength s v : Int)).sum
    let total := kept +
      (maxTokenCounts.entries.map fun e => (e.2 : Int) - historyLength s e.1).sum
    raiseIf ((capacity : Int) < total)
      (ChainErrorClass.capacity.error
        "Chain logical token history exceeds its configured resident capacity including admitted generation budgets")

def routingMatch (chainId : ι) : ChainMatch :=
  match s.records.get? chainId with
  | some r => { present := true, state := some r.state, tombstone := false }
  | none => { present := false, state := none, tombstone := s.tombstones.contains chainId }

def currentSnapshot : ChainRoutingSnapshot ι where
  enabled := true
  activeChainIds :=
    ((s.records.values.filter fun r => decide (r.state = .active)).map (·.chainId)).toFinset
  idleChainIds :=
    ((s.records.values.filter fun r => decide (r.state = .idle)).map (·.chainId)).toFinset
  tombstoneChainIds := s.tombstones.keySet

def routingSnapshot : ChainM ι φ δ (ChainRoutingSnapshot ι) := do
  let s ← PyM.get
  match s.routingSnapshotCache with
  | some snapshot => pure snapshot
  | none => do
    let snapshot := currentSnapshot s
    PyM.modify fun s => { s with routingSnapshotCache := some snapshot }
    return snapshot

def reset : ChainM ι φ δ Unit := PyM.modify fun _ => {}

end ChainCacheIndex

/-- `ChainRoutingSnapshot.match`. -/
def ChainRoutingSnapshot.matchChain {ι : Type} [DecidableEq ι] (snapshot : ChainRoutingSnapshot ι)
    (chainId : ι) : ChainMatch :=
  if chainId ∈ snapshot.activeChainIds then
    { present := true, state := some .active, tombstone := false }
  else if chainId ∈ snapshot.idleChainIds then
    { present := true, state := some .idle, tombstone := false }
  else { present := false, state := none, tombstone := decide (chainId ∈ snapshot.tombstoneChainIds) }

end SparseEngine
