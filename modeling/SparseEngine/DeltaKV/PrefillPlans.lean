import SparseEngine.Lib.Dict
import SparseEngine.Lib.Py
import SparseEngine.Lib.StackViews
import SparseEngine.DeltaKV.Eviction

/-! A prompt above the offload threshold is prefilled in chunks through a staging buffer. -/

namespace SparseEngine.DeltaKV

structure RowMaps where
  seqLen : Nat := 0
  rawSlots : Nat → Option Nat := fun _ => none
  latentSlots : Nat → Option Nat := fun _ => none
  fullSlots : Nat → Option Nat := fun _ => none
  kiviBlocks : Nat → Option Nat := fun _ => none

/-- An entry of `_deltakv_full_prefill_plans`. -/
structure SparsePlan where
  totalLen : Nat
  keepPos : List Nat
  keepSlots : List Nat
  latentPos : List Nat
  latentSlots : StackView

/-- An entry of `_full_layer_kivi_full_prefill_plans`. -/
structure KiviPlan where
  totalLen : Nat
  keepPos : List Nat
  keepSlots : StackView
  blockStarts : List Nat
  blockSlots : StackView

/-- What the scheduler keeps of a raw-offload prompt between two of its chunks. -/
structure OffloadPrompt where
  total : Nat
  prefilled : Nat

structure Manager where
  full : IdStack
  raw : IdStack
  latent : IdStack
  blocks : IdStack
  seqIdToRow : Dict Nat Nat := .empty
  freeRows : List Nat
  rows : Nat → RowMaps := fun _ => {}
  sparsePlans : Dict Nat SparsePlan := .empty
  kiviPlans : Dict Nat KiviPlan := .empty
  prompts : Dict Nat OffloadPrompt := .empty

structure StagingLimits where
  stagingNumSlots : Nat
  maxModelLen : Nat

structure PlanWrites where
  keep : List (Nat × Nat)
  latent : List (Nat × Nat)
  fullKeep : List (Nat × Nat)
  blocks : List (Nat × Nat)

abbrev ManagerM (α : Type) := PyM Manager α

variable (cfg : Config) (limits : StagingLimits)

variable (s : Manager)

variable (row : Nat)

def Manager.setRow (f : RowMaps → RowMaps) : Manager :=
  { s with rows := Function.update s.rows row (f (s.rows row)) }

def getFreeRow (seqId : Nat) : ManagerM Nat := do
  let s ← PyM.get
  match s.seqIdToRow.get? seqId with
  | some row => return row
  | none =>
    match s.freeRows with
    | [] => PyM.raise (.runtimeError "No free rows in cache manager buffer!")
    | row :: rest => do
      PyM.modify fun s =>
        { s with freeRows := rest, seqIdToRow := s.seqIdToRow.set seqId row }
      return row

def allocatedView (stack : IdStack) (size : Nat) : StackView :=
  if size = 0 then ⟨0, 0⟩ else stack.topView size

/-- `_allocate_persistent_deltakv_full_slots`. -/
def takeBelowReserve (stack : IdStack) (size reserve : Nat) : IdStack :=
  let start := stack.top - reserve - size
  { storage := fun k =>
      if start ≤ k ∧ k < start + reserve then stack.storage (k + size) else stack.storage k
    top := stack.top - size }

/-- `_allocate_deltakv_full_positions`. -/
def allocateDeltakvFullPositions (reserve row : Nat) (positions : List Nat) :
    ManagerM (List Nat) := do
  if positions.isEmpty then
    return []
  else do
    let s ← PyM.get
    PyM.raiseIf (s.raw.top < reserve + positions.length) (.runtimeError
      "Out of DeltaKV persistent raw slots for full-prefill final representation.")
    let ids := s.raw.read ⟨s.raw.top - reserve - positions.length, positions.length⟩
    PyM.modify fun s =>
      { s.setRow row fun r => { r with rawSlots := writeAt r.rawSlots (positions.zip ids) } with
        raw := takeBelowReserve s.raw positions.length reserve }
    return ids

/-- `_allocate_deltakv_latent`. -/
def allocateDeltakvLatent (positions : List Nat) : ManagerM StackView := do
  let s ← PyM.get
  PyM.raiseIf (s.latent.top < positions.length) (.custom 0 "AssertionError")
  let view := allocatedView s.latent positions.length
  PyM.modify fun s =>
    { s.setRow row fun r =>
        { r with latentSlots := writeAt r.latentSlots (positions.zip (s.latent.read view)) } with
      latent := s.latent.take positions.length }
  return view

def allocateFullPositions (positions : List Nat) : ManagerM StackView := do
  let s ← PyM.get
  PyM.raiseIf (s.full.top < positions.length)
    (.runtimeError "Out of full-layer raw cache slots for KIVI keep tokens")
  let view := allocatedView s.full positions.length
  PyM.modify fun s =>
    { s.setRow row fun r =>
        { r with fullSlots := writeAt r.fullSlots (positions.zip (s.full.read view)) } with
      full := s.full.take positions.length }
  return view

def allocateFullLayerKiviBlocks (size : Nat) : ManagerM StackView := do
  let s ← PyM.get
  PyM.raiseIf (s.blocks.top < size) (.runtimeError "Out of full-layer KIVI packed blocks")
  PyM.modify fun s => { s with blocks := s.blocks.take size }
  return allocatedView s.blocks size

def quantEnd (totalLen : Nat) : Nat :=
  let sink := min cfg.sinkKeepTokens totalLen
  sink + (totalLen - sink - cfg.residualLength) / cfg.groupSize * cfg.groupSize

def kiviKeepPositions (totalLen : Nat) : List Nat :=
  List.range (min cfg.sinkKeepTokens totalLen) ++
    List.range' (quantEnd cfg totalLen) (totalLen - quantEnd cfg totalLen)

def kiviBlockStarts (totalLen : Nat) : List Nat :=
  List.range' (min cfg.sinkKeepTokens totalLen)
    ((totalLen - min cfg.sinkKeepTokens totalLen - cfg.residualLength) / cfg.groupSize)
    cfg.groupSize

def blockEntries (starts ids : List Nat) : List (Nat × Nat) :=
  (starts.zip ids).flatMap fun e => (List.range cfg.groupSize).map fun o => (e.1 + o, e.2)

def prepareFullLayerKiviFullPrefillPlan (row totalLen : Nat) : ManagerM Unit := do
  let keepPos := kiviKeepPositions cfg totalLen
  let starts := kiviBlockStarts cfg totalLen
  let keepSlots ← allocateFullPositions row keepPos
  let blockSlots ← allocateFullLayerKiviBlocks starts.length
  PyM.modify fun s =>
    { s.setRow row fun r =>
        { r with
          fullSlots := writeAt (fun p => if p < totalLen then none else r.fullSlots p)
            (keepPos.zip (s.full.read keepSlots))
          kiviBlocks := writeAt r.kiviBlocks
            (blockEntries cfg starts (s.blocks.read blockSlots)) } with
      kiviPlans := s.kiviPlans.set row
        { totalLen, keepPos, keepSlots, blockStarts := starts, blockSlots } }

def prepareFullPrefillStagingPlan (reserve row totalLen : Nat) : ManagerM Unit := do
  PyM.raiseIf (limits.stagingNumSlots < totalLen)
    (.runtimeError "DeltaKV full-prefill staging capacity is too small for prompt.")
  let plan := fullPrefillPlanCpu cfg totalLen
  let latentPos := List.range' plan.evictStart (plan.evictEnd - plan.evictStart)
  let keepSlots ← allocateDeltakvFullPositions reserve row plan.keepPositions
  let latentSlots ← allocateDeltakvLatent row latentPos
  PyM.modify fun s =>
    { s with
      sparsePlans := s.sparsePlans.set row
        { totalLen, keepPos := plan.keepPositions, keepSlots, latentPos, latentSlots } }
  if cfg.fullLayerKiviEnabled then
    prepareFullLayerKiviFullPrefillPlan cfg row totalLen
  else
    pure ()

/-- `_allocate_full` for a chunk. -/
def allocateFull (seqId size : Nat) : ManagerM Nat := do
  let s ← PyM.get
  let curLen := ((s.seqIdToRow.get? seqId).map fun row => (s.rows row).seqLen).getD 0
  if cfg.fullLayerKiviEnabled then do
    PyM.raiseIf (limits.stagingNumSlots < curLen + size)
      (.runtimeError "Full-layer KIVI full-prefill staging capacity is too small")
    getFreeRow seqId
  else do
    PyM.raiseIf (limits.maxModelLen < curLen + size)
      (.runtimeError "KV row length exceeds max_model_len in DeltaKV _allocate_full.")
    PyM.raiseIf (s.full.top < size) (.custom 0 "AssertionError")
    let row ← getFreeRow seqId
    PyM.modify fun s =>
      { s.setRow row fun r =>
          { r with
            fullSlots := writeAt r.fullSlots
              ((List.range' curLen size).zip (s.full.read (s.full.topView size))) } with
        full := s.full.take size }
    return row

def lostPlan : PyError :=
  .runtimeError "DeltaKV long-prefill offload lost its full-prefill plan between chunks."

def Manager.planWrites : Option PlanWrites :=
  (s.sparsePlans.get? row).map fun plan =>
    let kivi := if cfg.fullLayerKiviEnabled then s.kiviPlans.get? row else none
    { keep := plan.keepPos.zip plan.keepSlots
      latent := plan.latentPos.zip (s.latent.read plan.latentSlots)
      fullKeep := (kivi.map fun p => p.keepPos.zip (s.full.read p.keepSlots)).getD []
      blocks := (kivi.map fun p => blockEntries cfg p.blockStarts
        (s.blocks.read p.blockSlots)).getD [] }

/-- The end of a raw-offload step: the last chunk writes where the plan says. -/
def finishChunk (row seqId total start size : Nat) : ManagerM (Option PlanWrites) := do
  PyM.modify fun s => s.setRow row fun r => { r with seqLen := r.seqLen + size }
  if total ≤ start + size then do
    let writes := (← PyM.get).planWrites cfg row
    PyM.modify fun s =>
      { s with
        sparsePlans := .empty
        kiviPlans := .empty
        prompts := s.prompts.erase seqId }
    return writes
  else do
    PyM.modify fun s =>
      { s with prompts := s.prompts.set seqId { total, prefilled := start + size } }
    return none

/-- A raw-offload step of one sequence with `size` prompt tokens. -/
def offloadChunk (reserve seqId total size : Nat) : ManagerM (Option PlanWrites) := do
  let s ← PyM.get
  let start := ((s.prompts.get? seqId).map (·.prefilled)).getD 0
  PyM.raiseIf (limits.stagingNumSlots < size)
    (.runtimeError "DeltaKV full-prefill staging capacity is too small for this step.")
  PyM.raiseIf ((s.seqIdToRow.get? seqId).any fun row => (s.rows row).seqLen ≠ start)
    (.valueError "KV cache row length mismatch in prefill")
  let row ← allocateFull cfg limits seqId size
  PyM.raiseIf (limits.stagingNumSlots < start + size)
    (.runtimeError "DeltaKV long-prefill offload staging capacity is too small for this chunk.")
  if start = 0 then
    prepareFullPrefillStagingPlan cfg limits reserve row total
  else do
    let s ← PyM.get
    PyM.raiseIf ((s.sparsePlans.get? row).isNone = true) lostPlan
  finishChunk cfg row seqId total start size

def Manager.freedFull : List Nat :=
  let r := s.rows row
  if cfg.fullLayerKiviEnabled then
    (List.range (max r.seqLen (((s.kiviPlans.get? row).map (·.totalLen)).getD 0))).filterMap
      r.fullSlots
  else (List.range r.seqLen).map fun p => (r.fullSlots p).getD 0

def Manager.freedBlocks : List Nat :=
  let r := s.rows row
  if cfg.fullLayerKiviEnabled then
    ((List.range (max r.seqLen
      (((s.kiviPlans.get? row).map (·.totalLen)).getD 0))).filterMap r.kiviBlocks).toFinset.sort
        (· ≤ ·)
  else []

def Manager.freedLatent : List Nat :=
  let r := s.rows row
  (List.range (max r.seqLen (((s.sparsePlans.get? row).map (·.totalLen)).getD 0))).filterMap
    r.latentSlots

/-- `free_seq`. -/
def freeSeq (seqId : Nat) (freedRaw : List Nat) : ManagerM Unit := do
  let s ← PyM.get
  PyM.modify fun s => { s with prompts := s.prompts.erase seqId }
  match s.seqIdToRow.get? seqId with
  | none => PyM.raise (.valueError "")
  | some row => do
    PyM.modify fun s => { s with seqIdToRow := s.seqIdToRow.erase seqId }
    PyM.raiseIf ((s.rows row).seqLen = 0) (.custom 0 "AssertionError")
    PyM.modify fun s =>
      { s with
        full := s.full.push (s.freedFull cfg row)
        blocks := s.blocks.push (s.freedBlocks cfg row)
        raw := s.raw.push freedRaw
        latent := s.latent.push (s.freedLatent row)
        rows := Function.update s.rows row {}
        freeRows := s.freeRows ++ [row]
        sparsePlans := s.sparsePlans.erase row
        kiviPlans := s.kiviPlans.erase row }

end SparseEngine.DeltaKV
