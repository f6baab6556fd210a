import SparseEngine.Lib.Batches
import Mathlib.Order.Interval.Finset.Nat

/-! What the cache manager keeps of one sequence, without the tensors: the positions that own a slot
of each pool, the centres, and the lengths. -/

namespace SparseEngine.DeltaKV

/-- `cluster_metric` is compared with four names and not validated before. -/
inductive ClusterMetric where
  | l2
  | dot
  | cosine
  | fastdot
  | other
deriving DecidableEq

/-- `sink_keep_tokens` and `recent_keep_tokens` are any token counts. -/
structure Config where
  sinkKeepTokens : Nat
  recentKeepTokens : Nat
  baseClusterStep : Nat
  deltakvNeighborCount : Nat
  clusterMetric : ClusterMetric
  fullLayerKiviEnabled : Bool
  groupSize : Nat
  residualLength : Nat
  clusterStep_pos : 0 < baseClusterStep
  group_pos : 0 < groupSize
  residual_pos : 0 < residualLength

/-- `chain_capacity_keys`. -/
inductive Pool where
  | fullLayers
  | deltakvRaw
  | deltakvLatent
  | fullLayerKiviBlocks
deriving DecidableEq

structure Row where
  seqLen : Nat := 0
  compressedLen : Nat := 0
  quantizedLen : Nat := 0
  rawSlots : Finset Nat := ∅
  latentSlots : Finset Nat := ∅
  fullSlots : Finset Nat := ∅
  kiviBlocks : Finset Nat := ∅
  centerSlots : Option (Finset Nat) := none
  /-- The prompt length of a raw-offload prefill under way. -/
  fullPrefillPlan : Option Nat := none
deriving DecidableEq

inductive EvictError where
  | zeroDivision
  | rawSlotsMissing
  | centersNotLive
  | unknownClusterMetric
  | noAvailableCenters
  | outOfLatentSlots
  | fullSlotsMissing
  | outOfKiviBlocks
deriving DecidableEq

variable (cfg : Config)

def centerPositions (start stop baseStep : Nat) : List Nat :=
  List.range' start ((stop - start + baseStep - 1) / baseStep) baseStep

structure FullPrefillPlan where
  sinkLen : Nat
  evictStart : Nat
  evictEnd : Nat
  evictLen : Nat
  keepPositions : List Nat
  centers : List Nat

variable (totalLen : Nat)

def fullPrefillPlanCpu : FullPrefillPlan :=
  let recent := cfg.recentKeepTokens
  let sinkLen := min cfg.sinkKeepTokens totalLen
  let bufferLen := totalLen - sinkLen
  if bufferLen ≤ recent then
    { sinkLen, evictStart := sinkLen, evictEnd := sinkLen, evictLen := 0
      keepPositions := List.range totalLen, centers := [] }
  else
    let evictLen :=
      if 0 < recent then (bufferLen - recent) / max 1 recent * max 1 recent else bufferLen
    let evictEnd := sinkLen + evictLen
    let centers := centerPositions sinkLen evictEnd cfg.baseClusterStep
    { sinkLen, evictStart := sinkLen, evictEnd, evictLen
      keepPositions := List.range sinkLen ++ centers ++
        List.range' evictEnd (totalLen - evictEnd)
      centers }

def estimateDeltakvLatentSlotsForTotalLen : Nat :=
  let bufferLen := totalLen - cfg.sinkKeepTokens
  let recent := cfg.recentKeepTokens
  if bufferLen ≤ recent then 0
  else if 0 < recent then (bufferLen - recent) / recent * recent
  else bufferLen

def estimateDeltakvRawSlotsForTotalLen : Nat :=
  (fullPrefillPlanCpu cfg totalLen).keepPositions.length

def estimateFullLayerKiviBlocksForTotalLen : Nat :=
  let sink := min cfg.sinkKeepTokens totalLen
  (totalLen - sink - cfg.residualLength) / cfg.groupSize

variable (r : Row)

def Row.append (size : Nat) : Row :=
  let added := Finset.Ico r.seqLen (r.seqLen + size)
  { r with
    seqLen := r.seqLen + size
    rawSlots := r.rawSlots ∪ added
    fullSlots := r.fullSlots ∪ added }

/-- `_prepare_full_layer_kivi_full_prefill_plan`. -/
def prepareFullLayerKiviPlan (totalLen : Nat) : Row :=
  let sink := min cfg.sinkKeepTokens totalLen
  let quantEnd := sink + (totalLen - sink - cfg.residualLength) / cfg.groupSize * cfg.groupSize
  { r with
    fullSlots := Finset.range sink ∪ Finset.Ico quantEnd totalLen
    kiviBlocks := r.kiviBlocks ∪
      (Finset.range ((quantEnd - sink) / cfg.groupSize)).image fun i => sink + cfg.groupSize * i
    quantizedLen := quantEnd }

/-- `_prepare_full_prefill_staging_plan`. -/
def preparePlan (totalLen : Nat) : Row :=
  let plan := fullPrefillPlanCpu cfg totalLen
  let planned := { r with
    rawSlots := r.rawSlots ∪ plan.keepPositions.toFinset
    latentSlots := r.latentSlots ∪ Finset.Ico plan.evictStart plan.evictEnd
    compressedLen := plan.evictLen }
  if cfg.fullLayerKiviEnabled then prepareFullLayerKiviPlan cfg planned totalLen else planned

def Row.stage (size : Nat) : Row :=
  { r with
    seqLen := r.seqLen + size
    fullSlots := if cfg.fullLayerKiviEnabled then r.fullSlots
      else r.fullSlots ∪ Finset.Ico r.seqLen (r.seqLen + size) }

/-- `_cluster_compress` on a block. -/
def clusterCompress (centers : Nat) : Except EvictError Unit :=
  if cfg.clusterMetric = .other then .error .unknownClusterMetric
  else if min cfg.deltakvNeighborCount centers = 0 then .error .noAvailableCenters
  else .ok ()

/-- `_deltakv_compress_full_prefill_layer`. -/
def compressFullPrefill (totalLen : Nat) : Except EvictError Row :=
  let plan := fullPrefillPlanCpu cfg totalLen
  let centers := Finset.range plan.sinkLen ∪ plan.centers.toFinset
  let done := { r with centerSlots := some centers, fullPrefillPlan := none }
  if plan.evictLen = 0 then .ok done
  else do
    clusterCompress cfg centers.card
    return done

/-- The sparse layers' part of `deltakv_evict`. -/
def sparseEvict (latentFree : Nat) (r : Row) : Except EvictError Row :=
  let sink := cfg.sinkKeepTokens
  let recent := cfg.recentKeepTokens
  let bufferStart := sink + r.compressedLen
  let bufferLen := r.seqLen - bufferStart
  if bufferLen ≤ recent then .ok r
  else if recent = 0 then .error .zeroDivision
  else
    let evictLen := (bufferLen - recent) / recent * recent
    if evictLen = 0 then .ok r
    else
      let evictEnd := bufferStart + evictLen
      let block := Finset.Ico bufferStart evictEnd
      let newCenters := (centerPositions bufferStart evictEnd cfg.baseClusterStep).toFinset
      let existing := r.centerSlots.getD (Finset.range sink)
      if ¬ block ⊆ r.rawSlots then .error .rawSlotsMissing
      else if latentFree < evictLen then .error .outOfLatentSlots
      else if ¬ existing ⊆ r.rawSlots then .error .centersNotLive
      else do
        clusterCompress cfg (existing.card + newCenters.card)
        return { r with
          latentSlots := r.latentSlots ∪ block
          centerSlots := some (existing ∪ newCenters)
          rawSlots := r.rawSlots \ (block \ newCenters)
          compressedLen := r.compressedLen + evictLen }

def fullLayerKiviEvict (blocksFree : Nat) (r : Row) : Except EvictError Row :=
  let sink := cfg.sinkKeepTokens
  let group := cfg.groupSize
  if cfg.fullLayerKiviEnabled = false then .ok r
  else
    let bufferLen := r.seqLen - sink
    let quantRelEnd := (bufferLen - cfg.residualLength) / group * group
    if bufferLen ≤ cfg.residualLength ∨ quantRelEnd = 0 then .ok r
    else
      let quantEnd := sink + quantRelEnd
      let quantStart := max sink (if r.quantizedLen = 0 then sink else r.quantizedLen)
      let quantStart := sink + (quantStart - sink + group - 1) / group * group
      if quantEnd ≤ quantStart then .ok r
      else if ¬ Finset.Ico quantStart quantEnd ⊆ r.fullSlots then .error .fullSlotsMissing
      else
        let numBlocks := (quantEnd - quantStart) / group
        if blocksFree < numBlocks then .error .outOfKiviBlocks
        else .ok { r with
          kiviBlocks := r.kiviBlocks ∪
            (Finset.range numBlocks).image fun i => quantStart + group * i
          fullSlots := r.fullSlots \ Finset.Ico quantStart quantEnd
          quantizedLen := quantEnd }

def deltakvEvict (free : Pool → Nat) (r : Row) : Except EvictError Row := do
  fullLayerKiviEvict cfg (free .fullLayerKiviBlocks)
    (← sparseEvict cfg (free .deltakvLatent) r)

def chainCapacityResidency : Pool → Nat
  | .fullLayers => r.fullSlots.card
  | .deltakvRaw => r.rawSlots.card
  | .deltakvLatent => r.latentSlots.card
  | .fullLayerKiviBlocks => if cfg.fullLayerKiviEnabled then r.kiviBlocks.card else 0

def rawPeak : Nat :=
  cfg.sinkKeepTokens + cfg.residualLength + cfg.groupSize

def quantizedGroups : Nat :=
  (r.quantizedLen - cfg.sinkKeepTokens) / cfg.groupSize

def decodeWindowCosts (tokens : Nat) : Pool → Nat
  | .fullLayers =>
    if cfg.fullLayerKiviEnabled then
      min tokens (max 1 (rawPeak cfg - (r.seqLen - quantizedGroups cfg r * cfg.groupSize)))
    else tokens
  | .deltakvRaw => tokens
  | .deltakvLatent =>
    estimateDeltakvLatentSlotsForTotalLen cfg (r.seqLen + tokens) - r.compressedLen
  | .fullLayerKiviBlocks =>
    if cfg.fullLayerKiviEnabled then
      estimateFullLayerKiviBlocksForTotalLen cfg (r.seqLen + tokens) - quantizedGroups cfg r
    else 0

/-- What `chain_capacity_deficits` requires. -/
def chainCapacityRequired (existing : Pool → Nat) (suffixTokens generationTokens : Nat) :
    Pool → Nat :=
  let oldLen := existing .fullLayers + existing .fullLayerKiviBlocks * cfg.groupSize
  let added := suffixTokens + (generationTokens - 1)
  let stop := oldLen + added
  let newBlocks := if cfg.fullLayerKiviEnabled then
    estimateFullLayerKiviBlocksForTotalLen cfg stop - existing .fullLayerKiviBlocks else 0
  fun
  | .fullLayers =>
    if cfg.fullLayerKiviEnabled then
      if oldLen = 0 then stop - newBlocks * cfg.groupSize
      else min added (max 1 (rawPeak cfg - existing .fullLayers))
    else added
  | .deltakvRaw => if oldLen = 0 then estimateDeltakvRawSlotsForTotalLen cfg stop else added
  | .deltakvLatent =>
    estimateDeltakvLatentSlotsForTotalLen cfg stop - existing .deltakvLatent
  | .fullLayerKiviBlocks => newBlocks

/-- `prefill_step_free_slots_for` of a resumed row. -/
def prefillStepFreeSlotsFor (available : Nat) (r : Row) : Nat :=
  if cfg.fullLayerKiviEnabled then
    min available (max 1 (rawPeak cfg - (r.seqLen - (r.quantizedLen - cfg.sinkKeepTokens))))
  else available

inductive Event where
  /-- A cold prompt in one staged prefill. -/
  | staged (totalLen : Nat)
  /-- The next chunk of a cold prompt of `promptLen` tokens prefilled by raw offload. -/
  | offload (promptLen size : Nat)
  /-- A chunk of a chunked or resumed prefill. -/
  | chunk (size : Nat)
  | decode

def Allowed : Event → Prop
  | .staged totalLen => r = {} ∧ 0 < totalLen
  | .offload promptLen size =>
    (r = {} ∨ r.fullPrefillPlan = some promptLen) ∧ 0 < size ∧ r.seqLen + size ≤ promptLen
  | .chunk size => r.fullPrefillPlan = none ∧ 0 < size
  | .decode => r.fullPrefillPlan = none ∧ 0 < r.seqLen

/-- A row stores its tokens, the forward pass compresses what was planned, and `finish_step` evicts.
-/
def step (free : Pool → Nat) (r : Row) : Event → Except EvictError Row
  | .staged totalLen => do
    deltakvEvict cfg free
      (← compressFullPrefill cfg ((preparePlan cfg r totalLen).stage cfg totalLen) totalLen)
  | .offload promptLen size =>
    let planned := if r.seqLen = 0 then preparePlan cfg r promptLen else r
    let staged := { planned.stage cfg size with fullPrefillPlan := some promptLen }
    if staged.seqLen = promptLen then compressFullPrefill cfg staged promptLen else .ok staged
  | .chunk size => deltakvEvict cfg free (r.append size)
  | .decode => deltakvEvict cfg free (r.append 1)

end SparseEngine.DeltaKV
