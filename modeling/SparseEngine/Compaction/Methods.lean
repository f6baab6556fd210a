import Mathlib.Tactic.Linarith

/-! The row of one sequence in one KV layer while it decodes. -/

namespace SparseEngine.Compaction

inductive Method where
  | snapkv (decodeEviction : Bool)
  | pyramidkv
  | rkv
  | skipkv
  | streamingllm
deriving DecidableEq

structure Config where
  method : Method
  sinkKeepTokens : Nat
  decodeKeepTokens : Nat
  recentKeepTokens : Nat
  scaledTopTokens : Nat
  decodeEvictionInterval : Nat
  rkvCompressionInterval : Nat
  skipkvCompressionInterval : Nat
  rkvObservationTokens : Nat
  decode_pos : 0 < decodeEvictionInterval
  rkv_pos : 0 < rkvCompressionInterval
  skipkv_pos : 0 < skipkvCompressionInterval
  observation_pos : 0 < rkvObservationTokens
  observation_le : rkvObservationTokens ≤ rkvCompressionInterval
  observation_lt : method = .rkv →
    rkvObservationTokens < sinkKeepTokens + decodeKeepTokens + recentKeepTokens

/-- `positions` is the row `_rkv_query_positions`. -/
structure Row where
  kvLen : Nat
  numTokens : Nat
  numPromptTokens : Nat
  positions : Nat → Option Nat

inductive StepError where
  | missingObservations
  | nonFiniteScores
  | emptyKeepIndices
deriving DecidableEq

variable (cfg : Config)

def tokenBudget : Nat :=
  cfg.sinkKeepTokens + cfg.decodeKeepTokens + cfg.recentKeepTokens

/-- `_get_layer_budget`. -/
def layerBudget : Nat :=
  match cfg.method with
  | .pyramidkv => cfg.sinkKeepTokens + cfg.scaledTopTokens + cfg.recentKeepTokens
  | _ => tokenBudget cfg

variable (r : Row)

/-- The step's token is appended. -/
def Row.store : Row :=
  { r with
    kvLen := r.kvLen + 1
    positions := Function.update r.positions (r.kvLen % cfg.rkvObservationTokens) (some r.kvLen) }

def rkvObservationReady : Prop :=
  ∀ p < r.kvLen, r.kvLen ≤ p + cfg.rkvObservationTokens →
    r.positions (p % cfg.rkvObservationTokens) = some p

instance (r : Row) : Decidable (rkvObservationReady cfg r) :=
  inferInstanceAs (Decidable (∀ p < r.kvLen, r.kvLen ≤ p + cfg.rkvObservationTokens → _))

/-- How many indices `_snapkv_select_indices` and `select_skipkv_indices` keep. -/
def selectIndices (kvLen budget : Nat) : Nat :=
  let sink := min cfg.sinkKeepTokens kvLen
  let recent := min cfg.recentKeepTokens (kvLen - sink)
  let top := budget - sink - recent
  let middle := kvLen - recent - sink
  if 0 < top ∧ 0 < middle then sink + min top middle + recent else sink + recent

def streamingllmSelectIndices (kvLen : Nat) : Nat :=
  let sinkEnd := min cfg.sinkKeepTokens kvLen
  let recentStart := max sinkEnd (kvLen - cfg.recentKeepTokens)
  sinkEnd + (kvLen - recentStart)

def freePartSlots (keep : Nat) : Except StepError Row :=
  if keep = 0 then .error .emptyKeepIndices else .ok { r with kvLen := keep }

variable (scored : Bool)

def snapkvDecodeEviction (r : Row) : Except StepError Row :=
  let budget := layerBudget cfg
  let triggerLen := budget + cfg.decodeEvictionInterval
  if r.kvLen ≤ budget ∨ r.kvLen < triggerLen then .ok r
  else if scored then freePartSlots r (selectIndices cfg r.kvLen budget)
  else .error .missingObservations

/-- `_joint_decode_eviction` of SkipKV. -/
def jointDecodeEviction : Except StepError Row :=
  let budget := tokenBudget cfg
  let triggerLen := budget + cfg.skipkvCompressionInterval
  -- A budget of zero reads as no budget.
  if budget = 0 then .ok r
  else if r.kvLen ≤ budget ∨ r.kvLen < triggerLen then .ok r
  else freePartSlots r (selectIndices cfg r.kvLen budget)

/-- `RKVRuntime.finish_step` outside replay. -/
def rkvFinishStep (r : Row) : Except StepError Row :=
  let budget := tokenBudget cfg
  let interval := cfg.rkvCompressionInterval
  let decoded := r.numTokens - r.numPromptTokens
  if 0 < decoded ∧ decoded % interval = 0 ∧ budget + interval ≤ r.kvLen then
    if rkvObservationReady cfg r then
      if scored then
        let keep := budget - cfg.rkvObservationTokens + cfg.rkvObservationTokens
        .ok { r with kvLen := keep, positions := fun _ => none }
      else .error .nonFiniteScores
    else if r.kvLen < r.numTokens then .error .missingObservations
    else .ok r
  else .ok r

def streamingllmDecodeEviction : Except StepError Row :=
  let budget := cfg.sinkKeepTokens + cfg.recentKeepTokens
  let triggerLen := 2 * budget
  if budget = 0 then .ok r
  else if r.kvLen ≤ budget ∨ r.kvLen < triggerLen then .ok r
  else freePartSlots r (streamingllmSelectIndices cfg r.kvLen)

def finishStep (r : Row) : Except StepError Row :=
  match cfg.method with
  | .snapkv false => .ok r
  | .snapkv true => snapkvDecodeEviction cfg scored r
  | .pyramidkv => snapkvDecodeEviction cfg scored r
  | .rkv => rkvFinishStep cfg scored r
  | .skipkv => jointDecodeEviction cfg r
  | .streamingllm => streamingllmDecodeEviction cfg r

def decodeStep (r : Row) : Except StepError Row := do
  let done ← finishStep cfg scored (r.store cfg)
  return { done with numTokens := done.numTokens + 1 }

/-- The compaction trigger that `chain_capacity_deficits` reckons with. -/
def reservedTrigger : Option Nat :=
  match cfg.method with
  | .snapkv false => none
  | .snapkv true => some (layerBudget cfg + cfg.decodeEvictionInterval)
  | .pyramidkv => some (layerBudget cfg + cfg.decodeEvictionInterval)
  | .rkv => some (max (tokenBudget cfg + 1) (tokenBudget cfg + cfg.rkvCompressionInterval))
  | .skipkv => some (max (tokenBudget cfg + 1) (tokenBudget cfg + cfg.skipkvCompressionInterval))
  | .streamingllm => none

/-- What `chain_capacity_deficits` requires of a layer for a resident row. -/
def chainCapacityRequired (existing suffixTokens generationTokens : Nat) : Nat :=
  let generated := generationTokens - 1
  let prefillPeak := existing + suffixTokens
  let decodePeak :=
    match reservedTrigger cfg with
    | none =>
      if cfg.method = .snapkv false then
        (if 0 < suffixTokens then min (existing + suffixTokens) (layerBudget cfg) else existing) +
          generated
      else prefillPeak + generated
    | some triggerLen =>
      let resident :=
        if suffixTokens = 0 ∨ cfg.method = .rkv ∨ cfg.method = .skipkv then existing + suffixTokens
        else min (existing + suffixTokens) (layerBudget cfg)
      if generated = 0 then resident
      else if cfg.method = .rkv then
        min (resident + generated) (max resident (triggerLen - 1) + cfg.rkvCompressionInterval)
      else if triggerLen ≤ resident then resident + 1
      else resident + min generated (triggerLen - resident)
  max prefillPeak decodePeak - existing

/-- `decode_window_costs` of the layer. -/
def decodeWindowCosts (existing tokens : Nat) : Nat :=
  match cfg.method with
  | .streamingllm =>
    let budget := cfg.sinkKeepTokens + cfg.recentKeepTokens
    if 0 < budget then min tokens (max 1 (2 * budget - existing)) else tokens
  | _ => chainCapacityRequired cfg existing 0 (tokens + 1)

inductive Reachable : Row → Prop
  | prefilled {promptLen kvLen : Nat} (pos : 0 < kvLen) (fits : kvLen ≤ promptLen) :
      Reachable ⟨kvLen, promptLen + 1, promptLen, fun _ => none⟩
  | replayed {promptLen completion kvLen : Nat} (pos : 0 < kvLen) (accepted : 0 < completion)
      (fits : kvLen + 1 ≤ promptLen + completion)
      (whole : cfg.method = .rkv → kvLen + 1 = promptLen + completion) :
      Reachable ⟨kvLen, promptLen + completion, promptLen, fun _ => none⟩
  | decode {r r' : Row} (scored : Bool) (reached : Reachable r)
      (ok : decodeStep cfg scored r = .ok r') : Reachable r'

inductive Decodes (r : Row) : Nat → Row → Prop
  | refl : Decodes r 0 r
  | step {k : Nat} {mid r' : Row} (scored : Bool) (run : Decodes r k mid)
      (ok : decodeStep cfg scored mid = .ok r') : Decodes r (k + 1) r'

/-- The window costs hold for a row. -/
structure WindowCostsHold (r : Row) : Prop where
  between : ∀ n k mid, Decodes cfg r k mid → k ≤ n →
    mid.kvLen ≤ r.kvLen + decodeWindowCosts cfg r.kvLen n
  within : ∀ n k mid, Decodes cfg r k mid → k < n →
    (mid.store cfg).kvLen ≤ r.kvLen + decodeWindowCosts cfg r.kvLen n
  mono : Monotone (decodeWindowCosts cfg r.kvLen)

end SparseEngine.Compaction
