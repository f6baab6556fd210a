import SparseEngine.Lib.Py

/-! `Sequence`: the tokens of a request, and how much of its prompt is prefilled. -/

namespace SparseEngine

open PyM

inductive SequenceStatus
  | waiting
  | running
  | finished
deriving DecidableEq, Repr

structure SamplingScalars where
  temperature : Rat := 1
  topP : Rat := 1
  topK : Int := 0
  presencePenalty : Rat := 0
  repetitionPenalty : Rat := 1
  logprobs : Option Int := none
deriving DecidableEq

structure PrefixCacheHit where
  enabled : Bool := false
  blockCount : Int := 0
  lastBlockId : Option (List Nat) := none
  blockSize : Int := 0
  method : String := ""
deriving DecidableEq, Repr

structure SequenceTags where
  chainId : Option String := none
  chainStatus : String := "disabled"
  chainReusedTokens : Int := 0
  multimodalDigest : Option String := none
  multimodalFullPrefill : Bool := false
  contextPrefixLength : Int := 0
deriving DecidableEq, Repr

/-- `Sequence`. -/
structure Sequence where
  seqId : Nat := 0
  status : SequenceStatus := .waiting
  tokenIds : List Int := []
  promptTokenIds : Option (List Int) := none
  lastToken : Option Int := none
  numTokens : Int
  numPendingOutputs : Int := 0
  numPromptTokens : Int
  numPrefilledTokens : Int := 0
  currentChunkSize : Option Int := none
  prefixCacheHitLen : Int := 0
  prefixCacheHit : PrefixCacheHit := {}
  tags : SequenceTags := {}
  multimodalPositionDelta : Int := 0
  contextLength : Option Int := none
  recomputeReplayCursor : Option Int := none
  decodeProgressCheckpoint : Int := 0
  sampling : SamplingScalars := {}
  maxTokens : Int
  ignoreEos : Bool := false
  eosTokenIds : List Int := []
deriving DecidableEq

def sliceIndex (length : Nat) (bound : Int) : Nat :=
  if bound < 0 then (bound + length).toNat else min bound.toNat length

/-- `tokens[start:stop]`. -/
def pySlice (tokens : List Int) (start stop : Int) : List Int :=
  (tokens.take (sliceIndex tokens.length stop)).drop (sliceIndex tokens.length start)

namespace Sequence

def create (seqId : Nat) (tokenIds : List Int) (maxTokens : Int) : Sequence where
  seqId := seqId
  tokenIds := tokenIds
  promptTokenIds := some tokenIds
  lastToken := tokenIds.getLast?
  numTokens := tokenIds.length
  numPromptTokens := tokenIds.length
  maxTokens := maxTokens

variable (seq : Sequence)

def numCompletionTokens : Int := seq.numTokens - seq.numPromptTokens

def isRecomputeReplay : Bool := seq.recomputeReplayCursor.isSome

def isRecomputePrefill : Bool :=
  seq.isRecomputeReplay && decide (seq.numPrefilledTokens < seq.numPromptTokens)

def isRecomputeDecode : Bool :=
  seq.isRecomputeReplay && decide (seq.numPromptTokens ≤ seq.numPrefilledTokens)

def replayDecodeTokenCount : Int := max 0 (seq.numCompletionTokens - 1)

def replayInputTokenIds : List Int :=
  if seq.isRecomputePrefill then
    let start := seq.numPrefilledTokens
    let stop := start + seq.currentChunkSize.getD 0
    if (seq.tokenIds.length : Int) = stop - start then seq.tokenIds
    else pySlice seq.tokenIds start stop
  else []

/-- `self.last_token`. -/
def requireLastToken (message : String) : Except PyError Int :=
  match seq.lastToken with
  | none => .error (.runtimeError message)
  | some token => .ok token

def decodeInputToken : Except PyError Int :=
  if seq.isRecomputeDecode then
    let cursor := seq.recomputeReplayCursor.getD 0
    if seq.replayDecodeTokenCount ≤ cursor then
      .error (.runtimeError "Recompute replay cursor is past the accepted decode history")
    else match seq.tokenIds[(seq.numPromptTokens + cursor).toNat]? with
      | some token => .ok token
      | none => seq.requireLastToken "Replay decode input token is missing"
  else seq.requireLastToken "Decode input token is missing"

def decodeInputPosition : Int :=
  (if seq.isRecomputeDecode then seq.numPromptTokens + seq.recomputeReplayCursor.getD 0
    else seq.numTokens - 1) + seq.multimodalPositionDelta

def shouldPublishSample : Bool := !seq.isRecomputeReplay

def clearPrefixCacheHit : Sequence :=
  { seq with prefixCacheHitLen := 0, prefixCacheHit := {} }

/-- `start_recompute_replay` of a sequence with a completion. -/
def startRecomputeReplay : Sequence :=
  clearPrefixCacheHit { seq with
    recomputeReplayCursor := some 0
    decodeProgressCheckpoint := seq.numCompletionTokens
    numPrefilledTokens := 0
    currentChunkSize := none
    status := .waiting }

def finishRecomputeReplay : Sequence :=
  { seq with recomputeReplayCursor := none, decodeProgressCheckpoint := seq.numCompletionTokens }

def advanceRecomputeReplay : Sequence :=
  let cursor := seq.recomputeReplayCursor.getD 0 + 1
  let advanced := { seq with recomputeReplayCursor := some cursor }
  if seq.replayDecodeTokenCount ≤ cursor then advanced.finishRecomputeReplay else advanced

def prefillStageRemaining : Int :=
  match seq.contextLength with
  | none => seq.numPromptTokens - seq.numPrefilledTokens
  | some n =>
    if seq.numPrefilledTokens < n then n - seq.numPrefilledTokens
    else seq.numPromptTokens - seq.numPrefilledTokens

def appendToken (token : Int) (seq : Sequence) : Sequence :=
  { seq with
    tokenIds := seq.tokenIds ++ [token]
    lastToken := some token
    numTokens := seq.numTokens + 1 }

def restartPrefill : Sequence :=
  { seq with status := .waiting, numPrefilledTokens := 0 }

def checkpointProgress : Sequence :=
  { seq with decodeProgressCheckpoint := seq.numCompletionTokens }

def adoptHit : Sequence :=
  if 0 < seq.prefixCacheHitLen then { seq with numPrefilledTokens := seq.prefixCacheHitLen }
  else seq

def setChunk (chunk : Int) (seq : Sequence) : Sequence := { seq with currentChunkSize := some chunk }

def advancePrefill : Sequence :=
  { seq with numPrefilledTokens := seq.numPrefilledTokens + seq.currentChunkSize.getD 0 }

variable (eosTokenIds : List Int)

def stopsAt (seq : Sequence) (token : Int) : Bool :=
  (!seq.ignoreEos &&
      decide (token ∈ if seq.eosTokenIds = [] then eosTokenIds else seq.eosTokenIds)) ||
    decide (seq.numCompletionTokens = seq.maxTokens)

def published (token : Int) (seq : Sequence) : Sequence :=
  let seq := seq.appendToken token
  if seq.stopsAt eosTokenIds token then { seq with status := .finished } else seq

/-- The sequence after `postprocess` of its prefill step. -/
def prefilled (token : Int) (seq : Sequence) : Sequence :=
  let seq := seq.advancePrefill
  if seq.numPrefilledTokens < seq.numPromptTokens then { seq with status := .waiting }
  else
    let seq := { seq with status := .running }
    if seq.isRecomputeReplay then
      if seq.replayDecodeTokenCount = 0 then seq.finishRecomputeReplay else seq
    else seq.published eosTokenIds token

/-- The sequence after `postprocess` of its decode step. -/
def decoded (token : Int) (seq : Sequence) : Sequence :=
  if seq.isRecomputeDecode then seq.advanceRecomputeReplay else seq.published eosTokenIds token

def preempted : Sequence :=
  (if 0 < seq.numCompletionTokens then seq.startRecomputeReplay
    else seq.restartPrefill).clearPrefixCacheHit

/-- `remaining_prefill_tokens` of the cache managers with a prefix cache. -/
def remainingPrefillTokens : Int :=
  seq.numPromptTokens - max seq.numPrefilledTokens seq.prefixCacheHitLen

/-- The sequence after `schedule` chose a chunk for it. -/
def scheduled (chunk : Int) (seq : Sequence) : Sequence :=
  { (if seq.numPrefilledTokens = 0 then seq.adoptHit else seq).setChunk chunk with
    status := .running }

/-- The tokens of a prefill step in `_prepare_prefill`. -/
def prefillChunkTokens : List Int :=
  let chunk := seq.currentChunkSize.getD 0
  if chunk < seq.tokenIds.length then
    pySlice seq.tokenIds seq.numPrefilledTokens (seq.numPrefilledTokens + chunk)
  else seq.tokenIds

def prefillInputs : List (Int × Int) :=
  seq.prefillChunkTokens.zipIdx.map fun p => (p.1, seq.numPrefilledTokens + p.2)

end Sequence

end SparseEngine
