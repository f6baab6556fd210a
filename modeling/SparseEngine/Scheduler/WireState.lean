import SparseEngine.Scheduler.Replay

/-! With every step rank 0 sends its sequences in a compact form: the active chunk of a prefill, or
one token of a decode. -/

namespace SparseEngine

open List Sequence Option SequenceRun

namespace Sequence

inductive WireData
  | tokens (tokenIds : List Int)
  | token (token : Option Int)
deriving DecidableEq, Repr

/-- The tuple of `__getstate__`. -/
structure WireState where
  seqId : Nat
  status : SequenceStatus
  numTokens : Int
  numPromptTokens : Int
  numPrefilledTokens : Int
  currentChunkSize : Option Int
  sampling : SamplingScalars
  maxTokens : Int
  ignoreEos : Bool
  eosTokenIds : List Int
  data : WireData
  prefixCacheHitLen : Int
  prefixCacheHit : PrefixCacheHit
  tags : SequenceTags
  recomputeReplayCursor : Option Int
  decodeProgressCheckpoint : Int
  multimodalPositionDelta : Int
  contextLength : Option Int

def wholePrompt (seq : Sequence) (chunk : Int) : Option (List Int) :=
  if seq.numPrefilledTokens = 0 ∧ chunk = seq.numPromptTokens then seq.promptTokenIds else none

/-- The token data of `__getstate__`. -/
def wireData (seq : Sequence) : Except PyError WireData :=
  if seq.numCompletionTokens = 0 ∨ seq.isRecomputePrefill then
    let chunk := seq.currentChunkSize.getD seq.numPromptTokens
    match seq.wholePrompt chunk with
    | some tokenIds => .ok (.tokens tokenIds)
    | none => .ok (.tokens (pySlice seq.tokenIds seq.numPrefilledTokens
        (seq.numPrefilledTokens + chunk)))
  else if seq.isRecomputeDecode then
    match seq.decodeInputToken with
    | .ok token => .ok (.token (some token))
    | .error e => .error e
  else .ok (.token seq.lastToken)

def getState (seq : Sequence) : Except PyError WireState :=
  match seq.wireData with
  | .error e => .error e
  | .ok data => .ok {
      seqId := seq.seqId
      status := seq.status
      numTokens := seq.numTokens
      numPromptTokens := seq.numPromptTokens
      numPrefilledTokens := seq.numPrefilledTokens
      currentChunkSize := seq.currentChunkSize
      sampling := seq.sampling
      maxTokens := seq.maxTokens
      ignoreEos := seq.ignoreEos
      eosTokenIds := seq.eosTokenIds
      data := data
      prefixCacheHitLen := seq.prefixCacheHitLen
      prefixCacheHit := seq.prefixCacheHit
      tags := seq.tags
      recomputeReplayCursor := seq.recomputeReplayCursor
      decodeProgressCheckpoint := seq.decodeProgressCheckpoint
      multimodalPositionDelta := seq.multimodalPositionDelta
      contextLength := seq.contextLength }

/-- The fields `__setstate__` copies. -/
def copied (state : WireState) : Sequence where
  seqId := state.seqId
  status := state.status
  numTokens := state.numTokens
  numPromptTokens := state.numPromptTokens
  numPrefilledTokens := state.numPrefilledTokens
  currentChunkSize := state.currentChunkSize
  sampling := state.sampling
  maxTokens := state.maxTokens
  ignoreEos := state.ignoreEos
  eosTokenIds := state.eosTokenIds
  prefixCacheHitLen := state.prefixCacheHitLen
  prefixCacheHit := state.prefixCacheHit
  tags := state.tags
  recomputeReplayCursor := state.recomputeReplayCursor
  decodeProgressCheckpoint := state.decodeProgressCheckpoint
  multimodalPositionDelta := state.multimodalPositionDelta
  contextLength := state.contextLength

/-- `__setstate__`. -/
def setState (state : WireState) : Except PyError Sequence :=
  let seq := copied state
  if seq.numCompletionTokens = 0 ∨ seq.isRecomputePrefill then
    match state.data with
    | .token _ => .error (.valueError "TypeError")
    | .tokens tokenIds => .ok { seq with
        tokenIds := tokenIds
        lastToken := tokenIds.getLast?
        promptTokenIds :=
          if seq.numPrefilledTokens = 0 ∧ (tokenIds.length : Int) = seq.numPromptTokens then
            some tokenIds
          else none }
  else match state.data with
    | .tokens _ => .error (.valueError "TypeError")
    | .token token => .ok { seq with lastToken := token }

def transmitted (seq : Sequence) : Except PyError Sequence :=
  match seq.getState with
  | .error e => .error e
  | .ok state => setState state

/-- `execution_snapshot`. -/
def executionSnapshot (seq : Sequence) : Sequence :=
  { seq with numTokens := seq.numTokens + seq.numPendingOutputs, numPendingOutputs := 0 }

def submittedPrefill (seq : Sequence) : Sequence :=
  let advanced := seq.advancePrefill
  if advanced.numPrefilledTokens < advanced.numPromptTokens then
    { advanced with status := .waiting }
  else { advanced with status := .running, numPendingOutputs := advanced.numPendingOutputs + 1 }

def submittedDecode (seq : Sequence) : Sequence :=
  { seq with numPendingOutputs := seq.numPendingOutputs + 1 }

def endsAt (eosTokenIds : List Int) (seq : Sequence) (token : Int) : Bool :=
  (!seq.ignoreEos &&
      decide (token ∈ if seq.eosTokenIds = [] then eosTokenIds else seq.eosTokenIds)) ||
    decide (seq.maxTokens ≤ seq.numCompletionTokens)

def retired (eosTokenIds : List Int) (token : Int) (seq : Sequence) : Sequence :=
  let accepted := { seq.appendToken token with numPendingOutputs := seq.numPendingOutputs - 1 }
  if accepted.endsAt eosTokenIds token then { accepted with status := .finished } else accepted

end Sequence

open SequenceRun (placeAfter)

/-- The sequences that rank 0 reaches. -/
inductive RankZero (eosTokenIds : List Int) : Place → Sequence → Prop
  | submitted {seq : Sequence} : seq.Submitted → seq.numPendingOutputs = 0 →
      RankZero eosTokenIds .waiting seq
  | refresh {seq : Sequence} (hitLen : Nat) (hit : PrefixCacheHit) :
      RankZero eosTokenIds .waiting seq → seq.numPrefilledTokens = 0 →
      seq.numCompletionTokens = 0 →
      RankZero eosTokenIds .waiting { seq with prefixCacheHitLen := hitLen, prefixCacheHit := hit }
  | schedule {seq : Sequence} {chunk : Int} : RankZero eosTokenIds .waiting seq → 0 < chunk →
      chunk ≤ seq.prefillStageRemaining → chunk ≤ seq.remainingPrefillTokens →
      RankZero eosTokenIds .batch (seq.scheduled chunk)
  | requeue {seq : Sequence} : RankZero eosTokenIds .batch seq → RankZero eosTokenIds .waiting seq
  | prefilled {seq : Sequence} (token : Int) : RankZero eosTokenIds .batch seq →
      RankZero eosTokenIds (placeAfter (seq.prefilled eosTokenIds token))
        (seq.prefilled eosTokenIds token)
  | decoded {seq : Sequence} (token : Int) : RankZero eosTokenIds .decoding seq →
      seq.numPendingOutputs = 0 →
      RankZero eosTokenIds (placeAfter (seq.decoded eosTokenIds token))
        (seq.decoded eosTokenIds token)
  | preempt {seq : Sequence} : RankZero eosTokenIds .decoding seq → seq.numPendingOutputs = 0 →
      RankZero eosTokenIds .waiting seq.preempted
  | checkpoint {seq : Sequence} : RankZero eosTokenIds .decoding seq →
      RankZero eosTokenIds .decoding seq.checkpointProgress
  | submitPrefill {seq : Sequence} : RankZero eosTokenIds .batch seq →
      seq.isRecomputeReplay = false →
      RankZero eosTokenIds (placeAfter seq.submittedPrefill) seq.submittedPrefill
  | submitDecode {seq : Sequence} : RankZero eosTokenIds .decoding seq →
      seq.isRecomputeReplay = false → RankZero eosTokenIds .decoding seq.submittedDecode
  | retire {seq : Sequence} (token : Int) : RankZero eosTokenIds .decoding seq →
      0 < seq.numPendingOutputs →
      RankZero eosTokenIds (placeAfter (seq.retired eosTokenIds token))
        (seq.retired eosTokenIds token)

inductive Sent (eosTokenIds : List Int) : Bool → Sequence → Prop
  | prefill {seq : Sequence} : RankZero eosTokenIds .batch seq → Sent eosTokenIds true seq
  | decode {seq : Sequence} : RankZero eosTokenIds .decoding seq → seq.numPendingOutputs = 0 →
      Sent eosTokenIds false seq
  | asyncPrefill {seq : Sequence} : RankZero eosTokenIds .batch seq →
      seq.isRecomputeReplay = false → Sent eosTokenIds true seq.executionSnapshot
  | asyncDecode {seq : Sequence} : RankZero eosTokenIds .decoding seq →
      seq.isRecomputeReplay = false → Sent eosTokenIds false seq.executionSnapshot

structure Tracked (place : Place) (seq : Sequence) : Prop where
  settled : seq.numPendingOutputs = 0
  in_run : ∃ s : SequenceRun, s.seq = seq ∧ s.place = place ∧ s.Inv

structure Pipelined (seq : Sequence) : Prop where
  history : seq.History
  in_flight : 0 < seq.numPendingOutputs
  prefilled : seq.numPrefilledTokens = seq.numPromptTokens
  no_replay : seq.recomputeReplayCursor = none
  running : seq.status ≠ .finished

inductive Known : Place → Sequence → Prop
  | tracked {place : Place} {seq : Sequence} : Tracked place seq → Known place seq
  | pipelined {seq : Sequence} : Pipelined seq → Known .decoding seq
  | done {seq : Sequence} : Known .done seq

variable {eosTokenIds : List Int} {seq : Sequence} {place : Place}

/-! Only the asynchronous steps touch the pending outputs. -/

theorem scheduled_pending (chunk : Int) (seq : Sequence) :
    (seq.scheduled chunk).numPendingOutputs = seq.numPendingOutputs := by
  simp only [scheduled, adoptHit, setChunk]
  split_ifs <;> rfl

theorem published_pending (token : Int) (seq : Sequence) :
    (seq.published eosTokenIds token).numPendingOutputs = seq.numPendingOutputs := by
  simp only [published]
  split <;> rfl

theorem prefilled_pending (token : Int) (seq : Sequence) :
    (seq.prefilled eosTokenIds token).numPendingOutputs = seq.numPendingOutputs := by
  simp only [Sequence.prefilled]
  split_ifs
  · rfl
  · rfl
  · rfl
  · exact published_pending token _

theorem decoded_pending (token : Int) (seq : Sequence) :
    (seq.decoded eosTokenIds token).numPendingOutputs = seq.numPendingOutputs := by
  simp only [Sequence.decoded, advanceRecomputeReplay]
  split_ifs
  · rfl
  · rfl
  · exact published_pending token _

theorem preempted_pending (seq : Sequence) :
    seq.preempted.numPendingOutputs = seq.numPendingOutputs := by
  simp only [preempted]
  split_ifs <;> rfl

theorem Tracked.requeue (h : Tracked .batch seq) : Tracked .waiting seq := by
  obtain ⟨settled, s, rfl, batch, inv⟩ := h
  have placed : s.Prefilling ∧ s.HasChunk := by simpa [Placed, batch] using inv.placed
  refine ⟨settled, { s with place := .waiting }, rfl, rfl, ?_⟩
  refine inv.move ⟨rfl, rfl, rfl, rfl, rfl, rfl⟩ ?_ rfl rfl (by simp [SequenceRun.next, batch])
  exact ⟨placed.1.prefilled_nonneg, placed.1.prefilled_le, placed.1.hit_nonneg, placed.1.fresh,
    placed.1.replay⟩

theorem Tracked.of_decoding (history : seq.History) (settled : seq.numPendingOutputs = 0)
    (prefilled : seq.numPrefilledTokens = seq.numPromptTokens) (accepted : 1 ≤ seq.numCompletionTokens)
    (no_replay : seq.recomputeReplayCursor = none) (running : seq.status ≠ .finished) :
    Tracked .decoding seq := by
  let s : SequenceRun := { seq := seq, place := .decoding, origin := (seq.numTokens - 1).toNat }
  have here : s.next = s.origin := by simp [s, SequenceRun.next, no_replay]
  refine ⟨settled, s, rfl, rfl, history, ?_, here.ge, ?_⟩
  · refine ⟨prefilled, accepted, fun cursor replays => ?_, running⟩
    cases no_replay.symm.trans replays
  · rw [here]
    simp [s]

theorem Known.waiting (h : Known .waiting seq) : Tracked .waiting seq := by
  cases h with
  | tracked tracked => exact tracked

theorem Known.batch (h : Known .batch seq) : Tracked .batch seq := by
  cases h with
  | tracked tracked => exact tracked

theorem Known.settled (h : Known .decoding seq) (settled : seq.numPendingOutputs = 0) :
    Tracked .decoding seq := by
  cases h with
  | tracked tracked => exact tracked
  | pipelined pipelined => exact absurd settled pipelined.in_flight.ne'

theorem submittedPrefill_known (h : Tracked .batch seq) (fresh : seq.isRecomputeReplay = false) :
    Known (placeAfter seq.submittedPrefill) seq.submittedPrefill := by
  have no_replay : seq.recomputeReplayCursor = none := by
    simpa [isRecomputeReplay] using fresh
  obtain ⟨settled, s, rfl, batch, inv⟩ := h
  have placed : s.Prefilling ∧ s.HasChunk := by simpa [Placed, batch] using inv.placed
  obtain ⟨-, chunk, chunk_size, -, fits⟩ := placed
  by_cases unfinished : s.seq.advancePrefill.numPrefilledTokens < s.seq.advancePrefill.numPromptTokens
  · -- the rest of the prompt waits, as after a synchronous step
    have waits : s.seq.submittedPrefill = s.seq.prefilled [] 0 := by
      simp only [submittedPrefill, Sequence.prefilled]
      rw [if_pos unfinished, if_pos unfinished]
    rw [waits]
    exact .tracked ⟨(prefilled_pending 0 _).trans settled, _, rfl, rfl,
      prefilled_inv inv batch 0⟩
  · have decodes : s.seq.submittedPrefill = { s.seq.advancePrefill with
        status := .running
        numPendingOutputs := s.seq.advancePrefill.numPendingOutputs + 1 } := by
      simp only [submittedPrefill]
      rw [if_neg unfinished]
    have whole : s.seq.advancePrefill.numPrefilledTokens = s.seq.numPromptTokens := by
      have reached : ¬ s.seq.advancePrefill.numPrefilledTokens < s.seq.numPromptTokens := unfinished
      simp only [advancePrefill, chunk_size, getD_some] at reached ⊢
      omega
    have place : placeAfter s.seq.submittedPrefill = .decoding := by
      simp only [decodes, placeAfter]
      rw [if_neg (by simp), if_neg (by exact unfinished)]
    rw [place, decodes]
    refine .pipelined ⟨inv.history.congr ⟨rfl, rfl, rfl, rfl, rfl, rfl⟩, ?_, whole, no_replay, (by simp)⟩
    have none_before : s.seq.advancePrefill.numPendingOutputs = 0 := settled
    simp [none_before]

theorem submittedDecode_known (h : Known .decoding seq) (fresh : seq.isRecomputeReplay = false) :
    Known .decoding seq.submittedDecode := by
  have no_replay : seq.recomputeReplayCursor = none := by
    simpa [isRecomputeReplay] using fresh
  cases h with
  | tracked tracked =>
    obtain ⟨settled, s, rfl, decoding, inv⟩ := tracked
    have placed : s.Decoding := by simpa [Placed, decoding] using inv.placed
    refine .pipelined ⟨inv.history.congr ⟨rfl, rfl, rfl, rfl, rfl, rfl⟩, ?_, placed.prefilled,
      no_replay, placed.running⟩
    simp [submittedDecode, settled]
  | pipelined pipelined =>
    have in_flight := pipelined.in_flight
    refine .pipelined ⟨pipelined.history.congr ⟨rfl, rfl, rfl, rfl, rfl, rfl⟩, ?_,
      pipelined.prefilled, no_replay, pipelined.running⟩
    simp only [submittedDecode]
    omega

theorem retired_known (h : Pipelined seq) (token : Int) :
    Known (placeAfter (seq.retired eosTokenIds token)) (seq.retired eosTokenIds token) := by
  let accepted : Sequence :=
    { seq.appendToken token with numPendingOutputs := seq.numPendingOutputs - 1 }
  have in_flight := h.in_flight
  have outcome : seq.retired eosTokenIds token = { accepted with status := .finished } ∨
      seq.retired eosTokenIds token = accepted := by
    simp only [Sequence.retired]
    split
    · exact .inl rfl
    · exact .inr rfl
  have history : accepted.History := (h.history.append token).congr ⟨rfl, rfl, rfl, rfl, rfl, rfl⟩
  have accepts : 1 ≤ accepted.numCompletionTokens := by
    have le := h.history.prompt_le
    simp only [accepted, numCompletionTokens, appendToken]
    omega
  rcases outcome with finished | continues
  · have place : placeAfter (seq.retired eosTokenIds token) = .done := by simp [finished, placeAfter]
    rw [place]
    exact .done
  · have place : placeAfter (seq.retired eosTokenIds token) = .decoding := by
      simp [continues, placeAfter, accepted, appendToken, h.running, h.prefilled]
    rw [place, continues]
    by_cases last : seq.numPendingOutputs = 1
    · refine .tracked (.of_decoding history ?_ h.prefilled accepts h.no_replay h.running)
      simp [accepted, last]
    · refine .pipelined ⟨history, ?_, h.prefilled, h.no_replay, h.running⟩
      simp only [accepted]
      omega

theorem rankZero_known (h : RankZero eosTokenIds place seq) : Known place seq := by
  induction h with
  | submitted submitted settled =>
    exact .tracked ⟨settled, _, rfl, rfl, start_inv submitted⟩
  | refresh hitLen hit _ _ fresh ih =>
    obtain ⟨settled, s, rfl, waiting, inv⟩ := ih.waiting
    exact .tracked ⟨settled, ⟨_, s.place, _, _⟩, rfl, waiting,
      refresh_inv inv waiting fresh hitLen hit⟩
  | schedule _ positive _ remaining ih =>
    obtain ⟨settled, s, rfl, waiting, inv⟩ := ih.waiting
    exact .tracked ⟨(scheduled_pending _ _).trans settled, _, rfl, rfl,
      schedule_inv inv waiting positive remaining⟩
  | requeue _ ih => exact .tracked ih.batch.requeue
  | prefilled token _ ih =>
    obtain ⟨settled, s, rfl, batch, inv⟩ := ih.batch
    exact .tracked ⟨(prefilled_pending token _).trans settled, _, rfl, rfl,
      prefilled_inv inv batch token⟩
  | decoded token _ settled ih =>
    obtain ⟨-, s, rfl, decoding, inv⟩ := ih.settled settled
    exact .tracked ⟨(decoded_pending token _).trans settled, _, rfl, rfl,
      decoded_inv inv decoding token _ (decodeInput_eq inv decoding).1⟩
  | preempt _ settled ih =>
    obtain ⟨-, s, rfl, decoding, inv⟩ := ih.settled settled
    exact .tracked ⟨(preempted_pending _).trans settled, _, rfl, rfl,
      preempt_inv inv decoding⟩
  | checkpoint _ ih =>
    cases ih with
    | tracked tracked =>
      obtain ⟨settled, s, rfl, decoding, inv⟩ := tracked
      exact .tracked ⟨settled, ⟨_, s.place, _, _⟩, rfl, decoding,
        checkpoint_inv inv decoding⟩
    | pipelined pipelined =>
      exact .pipelined { pipelined with
          history := pipelined.history.congr ⟨rfl, rfl, rfl, rfl, rfl, rfl⟩ }
  | submitPrefill _ fresh ih => exact submittedPrefill_known ih.batch fresh
  | submitDecode _ fresh ih => exact submittedDecode_known ih fresh
  | retire token _ in_flight ih =>
    cases ih with
    | tracked tracked =>
      have settled := tracked.settled
      omega
    | pipelined pipelined => exact retired_known pipelined token

/-- The copy gives the model the inputs of the sequence. -/
structure SameInputs (isPrefill : Bool) (seq copy : Sequence) : Prop where
  chunk_tokens : isPrefill = true → copy.prefillChunkTokens = seq.prefillChunkTokens
  input_token : isPrefill = false → copy.decodeInputToken = seq.decodeInputToken
  replay_tokens : copy.replayInputTokenIds = seq.replayInputTokenIds
  input_position : copy.decodeInputPosition = seq.decodeInputPosition
  recompute_prefill : copy.isRecomputePrefill = seq.isRecomputePrefill
  recompute_decode : copy.isRecomputeDecode = seq.isRecomputeDecode
  publishes : copy.shouldPublishSample = seq.shouldPublishSample

def chunkCopy (seq : Sequence) (tokenIds : List Int) : Sequence :=
  { seq with
    tokenIds := tokenIds
    lastToken := tokenIds.getLast?
    numPendingOutputs := 0
    promptTokenIds :=
      if seq.numPrefilledTokens = 0 ∧ (tokenIds.length : Int) = seq.numPromptTokens then
        some tokenIds
      else none }

def tokenCopy (seq : Sequence) (token : Option Int) : Sequence :=
  { seq with tokenIds := [], lastToken := token, numPendingOutputs := 0, promptTokenIds := none }

theorem wireData_chunk (history : seq.History) {start chunk : Nat}
    (at_start : seq.numPrefilledTokens = start) (chunk_size : seq.currentChunkSize = some (chunk : Int))
    (fits : (start + chunk : Int) ≤ seq.numPromptTokens)
    (sends : seq.numCompletionTokens = 0 ∨ seq.isRecomputePrefill) :
    seq.wireData = .ok (.tokens ((seq.tokenIds.drop start).take chunk)) := by
  have length := history.length
  have prompt_le := history.prompt_le
  have sliced : pySlice seq.tokenIds seq.numPrefilledTokens (seq.numPrefilledTokens + chunk) =
      (seq.tokenIds.drop start).take chunk := by
    rw [at_start]
    exact pySlice_eq (by omega)
  rw [wireData, if_pos sends]
  simp only [chunk_size, getD_some, wholePrompt, history.prompt_ids, sliced]
  by_cases whole : seq.numPrefilledTokens = 0 ∧ (chunk : Int) = seq.numPromptTokens
  · have unstarted : start = 0 := by omega
    rw [if_pos whole]
    simp only [unstarted, drop_zero, ← whole.2, Int.toNat_natCast]
  · simp only [if_neg whole]

theorem transmitted_chunk {tokenIds : List Int} (data : seq.wireData = .ok (.tokens tokenIds))
    (sends : seq.numCompletionTokens = 0 ∨ seq.isRecomputePrefill) :
    seq.transmitted = .ok (chunkCopy seq tokenIds) := by
  simp only [Sequence.transmitted, getState, data, setState]
  exact if_pos sends

theorem transmitted_token {token : Option Int} (data : seq.wireData = .ok (.token token))
    (sends : ¬ (seq.numCompletionTokens = 0 ∨ seq.isRecomputePrefill)) :
    seq.transmitted = .ok (tokenCopy seq token) := by
  simp only [Sequence.transmitted, getState, data, setState]
  exact if_neg sends

theorem chunk_same (history : seq.History) {start chunk : Nat}
    (at_start : seq.numPrefilledTokens = start) (chunk_size : seq.currentChunkSize = some (chunk : Int))
    (fits : (start + chunk : Int) ≤ seq.numPromptTokens)
    (sends : seq.numCompletionTokens = 0 ∨ seq.isRecomputePrefill) :
    ∃ copy, seq.transmitted = .ok copy ∧ SameInputs true seq copy := by
  obtain ⟨tokenIds, cut⟩ : ∃ tokenIds, tokenIds = (seq.tokenIds.drop start).take chunk := ⟨_, rfl⟩
  have length := history.length
  have prompt_le := history.prompt_le
  have size : tokenIds.length = chunk := by
    simp only [cut, length_take, length_drop]
    omega
  have sliced : pySlice seq.tokenIds seq.numPrefilledTokens (seq.numPrefilledTokens + chunk) =
      tokenIds := by
    rw [at_start, cut]
    exact pySlice_eq (by omega)
  have data := wireData_chunk history at_start chunk_size fits sends
  rw [← cut] at data
  refine ⟨_, transmitted_chunk data sends, fun _ => ?_, nofun, ?_, rfl, rfl, rfl, rfl⟩
  · -- the copy has exactly the chunk, so it is not sliced again
    rw [prefillChunkTokens_eq history at_start chunk_size fits, ← cut]
    simp only [prefillChunkTokens, chunkCopy, chunk_size, getD_some]
    exact if_neg (by omega)
  · have same : (chunkCopy seq tokenIds).isRecomputePrefill = seq.isRecomputePrefill := rfl
    have copied : (chunkCopy seq tokenIds).replayInputTokenIds =
        if seq.isRecomputePrefill then tokenIds else [] := by
      simp only [replayInputTokenIds, same]
      simp only [chunkCopy, chunk_size, getD_some]
      rw [if_pos (show (tokenIds.length : Int) =
        seq.numPrefilledTokens + chunk - seq.numPrefilledTokens by omega)]
    have original : seq.replayInputTokenIds = if seq.isRecomputePrefill then tokenIds else [] := by
      simp only [replayInputTokenIds, chunk_size, getD_some, sliced]
      by_cases all : (seq.tokenIds.length : Int) =
          seq.numPrefilledTokens + chunk - seq.numPrefilledTokens
      · -- the chunk is the whole history
        have unstarted : start = 0 := by omega
        rw [if_pos all, cut, unstarted, drop_zero, take_of_length_le (by omega)]
      · rw [if_neg all]
    rw [copied, original]

theorem token_same (accepted : 1 ≤ seq.numCompletionTokens)
    (prefilled : seq.numPrefilledTokens = seq.numPromptTokens)
    (reads : seq.isRecomputeDecode = true → ∃ input, seq.decodeInputToken = .ok input) :
    ∃ copy, seq.transmitted = .ok copy ∧ SameInputs false seq copy := by
  have no_chunk : seq.isRecomputePrefill = false := by
    simp [isRecomputePrefill, prefilled]
  have sends : ¬ (seq.numCompletionTokens = 0 ∨ seq.isRecomputePrefill = true) := by
    simp only [no_chunk, Bool.false_eq_true, or_false]
    omega
  by_cases replays : seq.isRecomputeDecode = true
  · obtain ⟨input, reads⟩ := reads replays
    have data : seq.wireData = .ok (.token (some input)) := by
      simp only [wireData, if_neg sends, if_pos replays, reads]
    have behind : ¬ seq.replayDecodeTokenCount ≤ seq.recomputeReplayCursor.getD 0 := by
      intro past
      simp [decodeInputToken, replays, past] at reads
    have same_count : (tokenCopy seq (some input)).replayDecodeTokenCount =
        seq.replayDecodeTokenCount := rfl
    have same_decode : (tokenCopy seq (some input)).isRecomputeDecode = true := replays
    refine ⟨_, transmitted_token data sends, (by simp), fun _ => ?_, ?_, rfl, rfl, rfl, rfl⟩
    · rw [reads]
      simp only [decodeInputToken, same_decode, same_count, if_true]
      simp [tokenCopy, behind, requireLastToken]
    · have same_prefill : (tokenCopy seq (some input)).isRecomputePrefill = false := no_chunk
      simp [replayInputTokenIds, same_prefill, no_chunk]
  · have data : seq.wireData = .ok (.token seq.lastToken) := by
      simp only [wireData, if_neg sends, if_neg replays]
    refine ⟨_, transmitted_token data sends, (by simp), fun _ => ?_, ?_, rfl, rfl, rfl, rfl⟩
    · have same_decode : ¬ (tokenCopy seq seq.lastToken).isRecomputeDecode = true := replays
      simp only [decodeInputToken, if_neg same_decode, if_neg replays]
      rfl
    · have same_prefill : (tokenCopy seq seq.lastToken).isRecomputePrefill = false := no_chunk
      simp [replayInputTokenIds, same_prefill, no_chunk]

theorem executionSnapshot_settled (settled : seq.numPendingOutputs = 0) :
    seq.executionSnapshot = seq := by
  simp only [executionSnapshot, settled, add_zero]
  rw [← settled]

theorem Tracked.chunk_same (h : Tracked .batch seq) :
    ∃ copy, seq.transmitted = .ok copy ∧ SameInputs true seq copy := by
  obtain ⟨-, s, rfl, batch, inv⟩ := h
  have placed : s.Prefilling ∧ s.HasChunk := by simpa [Placed, batch] using inv.placed
  obtain ⟨prefilling, chunk, chunk_size, positive, fits⟩ := placed
  obtain ⟨start, at_start⟩ := Int.eq_ofNat_of_zero_le prefilling.prefilled_nonneg
  have sends : s.seq.numCompletionTokens = 0 ∨ s.seq.isRecomputePrefill = true := by
    cases replays : s.seq.recomputeReplayCursor with
    | none => exact .inl (prefilling.fresh replays)
    | some cursor =>
      have inside : s.seq.numPrefilledTokens < s.seq.numPromptTokens := by omega
      exact .inr (by simp [isRecomputePrefill, isRecomputeReplay, replays, inside])
  exact SparseEngine.chunk_same inv.history at_start chunk_size (at_start ▸ fits) sends

theorem Tracked.token_same (h : Tracked .decoding seq) :
    ∃ copy, seq.transmitted = .ok copy ∧ SameInputs false seq copy := by
  obtain ⟨-, s, rfl, decoding, inv⟩ := h
  have placed : s.Decoding := by simpa [Placed, decoding] using inv.placed
  exact SparseEngine.token_same placed.completion placed.prefilled
    fun _ => ⟨_, (decodeInput_eq inv decoding).1⟩

theorem Pipelined.token_same (h : Pipelined seq) :
    ∃ copy, seq.executionSnapshot.transmitted = .ok copy ∧
      SameInputs false seq.executionSnapshot copy := by
  have in_flight := h.in_flight
  have le := h.history.prompt_le
  refine SparseEngine.token_same ?_ h.prefilled fun replays => ?_
  · simp only [executionSnapshot, numCompletionTokens]
    omega
  · simp [executionSnapshot, isRecomputeDecode, isRecomputeReplay,
      h.no_replay] at replays

/-- What a step sends is rebuilt with the inputs of the original. -/
theorem transmitted_same_inputs {isPrefill : Bool} (h : Sent eosTokenIds isPrefill seq) :
    ∃ copy, seq.transmitted = .ok copy ∧ SameInputs isPrefill seq copy := by
  cases h with
  | prefill batch => exact (rankZero_known batch).batch.chunk_same
  | decode decoding settled => exact ((rankZero_known decoding).settled settled).token_same
  | asyncPrefill batch _ =>
    have tracked := (rankZero_known batch).batch
    rw [executionSnapshot_settled tracked.settled]
    exact tracked.chunk_same
  | asyncDecode decoding _ =>
    cases rankZero_known decoding with
    | tracked tracked =>
      rw [executionSnapshot_settled tracked.settled]
      exact tracked.token_same
    | pipelined pipelined => exact pipelined.token_same

def firstChunk : Sequence := (create 0 [3, 4] 9).scheduled 1

theorem firstChunk_sent : Sent [] true firstChunk :=
  .prefill (.schedule (.submitted ⟨rfl, rfl, rfl, rfl, rfl, le_refl _, by decide, rfl⟩ rfl)
    (by decide) (by decide) (by decide))

theorem transmitted_same_inputs_firstChunk :
    ∃ copy, firstChunk.transmitted = .ok copy ∧ SameInputs true firstChunk copy :=
  transmitted_same_inputs firstChunk_sent

/-- The copy of a chunk does not know the last token of the prompt. -/
theorem transmitted_last_token_differs :
    ∃ seq copy : Sequence, Sent [] true seq ∧ seq.transmitted = .ok copy ∧
      seq.decodeInputToken = .ok 4 ∧ copy.decodeInputToken = .ok 3 :=
  ⟨firstChunk, chunkCopy firstChunk [3], firstChunk_sent, by decide +kernel, by decide +kernel,
    by decide +kernel⟩

end SparseEngine
